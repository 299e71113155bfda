import Allwinner.Modem.Text

/-!
# Read buffer

Data received from the modem until a line is complete. A channel is the list of
responses to successive reads; a response is cut to the capacity offered, since
`read_from_modem` fills at most `buf_len` bytes.
-/

namespace Allwinner.Modem

/-- Newline or carriage return. -/
def endOfLine (c : Char) : Bool := c = '\x0d' || c = '\x0a'

/-- `Read_buffer`: the payload, which stays inside `_buffer`. -/
structure ReadBuffer (maxLineLen : Nat) where
  payload : Text := []
  fits : payload.length ≤ 2 * maxLineLen := by exact Nat.zero_le _

namespace ReadBuffer

variable {maxLineLen : Nat}

def remainingCapacity (b : ReadBuffer maxLineLen) : Nat := 2 * maxLineLen - b.payload.length

/-- `fill` with a response of the channel; `none` is `Fill_result::DONE`. -/
def fill (b : ReadBuffer maxLineLen) (response : Text) : Option (ReadBuffer maxLineLen) :=
  let appended := response.take b.remainingCapacity
  if appended = [] then none
  else some {
    payload := b.payload ++ appended
    fits := by
      have := b.fits
      simp only [List.length_append, appended, List.length_take, remainingCapacity]
      omega }

/-- The lines of the payload and what is kept of it. An incomplete line longer
than `maxLineLen` is discarded. -/
def consume (maxLineLen : Nat) : Nat → Text → List Text × Text
  | 0, payload => ([], payload)
  | fuel + 1, payload =>
    if payload = [] then ([], [])
    else
      let line := payload.takeWhile (!endOfLine ·)
      if line.length = payload.length then
        ([], if payload.length > maxLineLen then [] else payload)
      else
        let rest := (payload.drop line.length).dropWhile endOfLine
        let (lines, kept) := consume maxLineLen fuel rest
        (line :: lines, kept)

theorem consume_length (maxLineLen fuel : Nat) (payload : Text) :
    (consume maxLineLen fuel payload).2.length ≤ payload.length := by
  induction fuel generalizing payload with
  | zero => simp [consume]
  | succ fuel ih =>
    simp only [consume]
    split_ifs
    · simp
    · simp
    · rfl
    · calc (consume maxLineLen fuel _).2.length
        _ ≤ ((payload.drop _).dropWhile endOfLine).length := ih _
        _ ≤ (payload.drop _).length := (List.dropWhile_suffix _).length_le
        _ ≤ payload.length := by simp

/-- `consume_lines`. Each round removes a character, so the payload's length
is fuel enough. -/
def consumeLines (b : ReadBuffer maxLineLen) : List Text × ReadBuffer maxLineLen :=
  let r := consume maxLineLen b.payload.length b.payload
  (r.1, { payload := r.2, fits := (consume_length _ _ _).trans b.fits })

/-- The loop of `Driver::apply`: fill and consume until a read returns nothing. -/
def receive (b : ReadBuffer maxLineLen) : List Text → List Text × ReadBuffer maxLineLen
  | [] => ([], b)
  | response :: responses =>
    match b.fill response with
    | none => ([], b)
    | some b =>
      let (lines, b) := b.consumeLines
      let (lines', b) := receive b responses
      (lines ++ lines', b)

example :
    (receive ({} : ReadBuffer 8) ["abcd\r\ne".toList, "fghijk\r\nx".toList, "\r\n".toList,
      "abcdefghijk".toList, "ok\r\n".toList]).1
    = ["abcd".toList, "efghijk".toList, "x".toList, "ok".toList] := by decide

end ReadBuffer

end Allwinner.Modem
