import Allwinner.Modem.Chunks

/-!
# Lines of the stream

The read buffer over any number of reads: how much is left in it, which lines
of the stream it delivers, and what it delivers after it discarded an overlong
line. The bytes a read returns are cut to the room that is left.
-/

namespace Allwinner.Modem

open scoped List

/-- A line under way is scanned again with what follows it. -/
theorem splitLines_under_way (h : EolFree cur) : splitLines cur t = splitLines [] (cur ++ t) := by
  rw [splitLines_append, splitLines_eolFree h]
  rfl

namespace ReadBuffer

variable {maxLineLen : Nat}

/-- One read, and the lines it completes. A read that brings nothing changes nothing. -/
def round (b : ReadBuffer maxLineLen) (response : Text) : List Text × ReadBuffer maxLineLen :=
  match b.fill response with
  | none => ([], b)
  | some b => b.consumeLines

/-- Any number of reads, whether or not in one call of `Driver::apply`. -/
def rounds (b : ReadBuffer maxLineLen) : List Text → List Text × ReadBuffer maxLineLen
  | [] => ([], b)
  | response :: responses =>
    let (lines, b) := b.round response
    let (lines', b) := rounds b responses
    (lines ++ lines', b)

/-- What the reads return. -/
def arrived (b : ReadBuffer maxLineLen) : List Text → Text
  | [] => []
  | response :: responses =>
    response.take b.remainingCapacity ++ arrived (b.round response).2 responses

/-- The incomplete line of a read is discarded. -/
def Discards (b : ReadBuffer maxLineLen) (response : Text) : Prop :=
  maxLineLen < (splitLines [] (b.payload ++ response.take b.remainingCapacity)).2.length

variable {b : ReadBuffer maxLineLen} {response : Text} {responses : List Text}

-- ---------------------------------------------------------------------------
-- One read
-- ---------------------------------------------------------------------------

/-- The payload is an incomplete line of bounded length, as after every `consume_lines`. -/
structure Settled (b : ReadBuffer maxLineLen) : Prop where
  eolFree : EolFree b.payload
  bounded : b.payload.length ≤ maxLineLen

theorem Settled.init : Settled ({} : ReadBuffer maxLineLen) := ⟨.nil, by simp⟩

theorem payload_consumeLines :
    b.consumeLines.2.payload = keep maxLineLen (splitLines [] b.payload).2 :=
  (consume_keep le_rfl).2

theorem eolFree_keep (h : EolFree t) : EolFree (keep maxLineLen t) := by
  unfold keep
  split
  · exact .nil
  · exact h

theorem settled_consumeLines (b : ReadBuffer maxLineLen) : Settled b.consumeLines.2 where
  eolFree := by
    rw [payload_consumeLines]
    exact eolFree_keep (eolFree_kept _)
  bounded := by
    rw [payload_consumeLines]
    exact length_keep_le _

/-- `fill` always offers room for a line. -/
theorem Settled.remainingCapacity (h : b.Settled) : maxLineLen ≤ b.remainingCapacity := by
  have := h.bounded
  unfold ReadBuffer.remainingCapacity
  omega

/-- The lines of one read, up to empty ones, and what is left of it. -/
theorem round_eq (h : b.Settled) (response : Text) :
    (b.round response).1.filter (· ≠ []) =
        (splitLines [] (b.payload ++ response.take b.remainingCapacity)).1 ∧
      (b.round response).2.payload =
        keep maxLineLen (splitLines [] (b.payload ++ response.take b.remainingCapacity)).2 := by
  unfold round fill
  by_cases hr : response.take b.remainingCapacity = []
  · simp only [hr, if_true, List.append_nil, splitLines_eolFree h.eolFree, List.nil_append]
    exact ⟨rfl, (keep_of_le h.bounded).symm⟩
  · simp only [if_neg hr]
    exact consume_keep le_rfl

theorem Settled.round (h : b.Settled) : (b.round response).2.Settled := by
  obtain ⟨-, hpay⟩ := round_eq h response
  refine ⟨?_, ?_⟩ <;> rw [hpay]
  · exact eolFree_keep (eolFree_kept _)
  · exact length_keep_le _

theorem Settled.rounds (h : b.Settled) : (b.rounds responses).2.Settled := by
  induction responses generalizing b with
  | nil => exact h
  | cons response responses ih => exact ih h.round

-- ---------------------------------------------------------------------------
-- Lines that fit
-- ---------------------------------------------------------------------------

/-- As long as no line is too long, exactly the lines of the stream are delivered. -/
theorem rounds_fit (h : b.Settled) (hfit : LinesFit maxLineLen (b.payload ++ b.arrived responses)) :
    (b.rounds responses).1.filter (· ≠ []) = (splitLines b.payload (b.arrived responses)).1 := by
  induction responses generalizing b with
  | nil => rfl
  | cons response responses ih =>
    obtain ⟨hlines, hpay⟩ := round_eq h response
    set bytes := response.take b.remainingCapacity with hbytes
    have hkept : (splitLines [] (b.payload ++ bytes)).2 <:+: b.payload ++ b.arrived (response :: responses) := by
      rw [arrived, ← List.append_assoc]
      exact (kept_suffix _).isInfix.trans (List.prefix_append _ _).isInfix
    rw [keep_of_le (hfit _ hkept (eolFree_kept _))] at hpay
    have hrest : LinesFit maxLineLen
        ((b.round response).2.payload ++ (b.round response).2.arrived responses) := by
      refine hfit.infix ?_
      rw [hpay, arrived, ← List.append_assoc]
      exact (List.suffix_append_self_iff.mpr (kept_suffix _)).isInfix
    rw [rounds, List.filter_append, ih h.round hrest, hlines, hpay,
      splitLines_under_way h.eolFree, arrived, ← List.append_assoc,
      splitLines_append _ (_ ++ _)]

-- ---------------------------------------------------------------------------
-- Overlong lines
-- ---------------------------------------------------------------------------

/-- Of a stream that goes on with an overlong line under way, no other line gets lost. -/
theorem splitLines_overlong (hcur : maxLineLen < cur.length) (other t : Text) :
    (splitLines cur t).1.filter (·.length ≤ maxLineLen) <+
      (splitLines other t).1.filter (·.length ≤ maxLineLen) := by
  induction t generalizing cur other with
  | nil => exact List.Sublist.slnil
  | cons c t ih =>
    by_cases hc : endOfLine c
    · have hne : cur ≠ [] := by
        rintro rfl
        simp at hcur
      have hlong : ¬ cur.length ≤ maxLineLen := by omega
      simp only [splitLines, hc, if_true, if_neg hne, List.filter_cons, hlong, decide_false,
        Bool.false_eq_true, if_false]
      by_cases ho : other = []
      · simp only [ho, if_true]
        exact List.Sublist.refl _
      · simp only [if_neg ho, List.filter_cons]
        split
        · exact List.sublist_cons_self _ _
        · exact List.Sublist.refl _
    · simp only [splitLines, hc, Bool.false_eq_true, if_false]
      refine ih ?_ _
      rw [List.length_append]
      omega

/-- Every line of the stream that is not overlong is delivered, in the order of the stream. -/
theorem rounds_short (h : b.Settled) (responses : List Text) :
    (splitLines b.payload (b.arrived responses)).1.filter (·.length ≤ maxLineLen) <+
      (b.rounds responses).1 := by
  induction responses generalizing b with
  | nil => exact List.Sublist.slnil
  | cons response responses ih =>
    obtain ⟨hlines, hpay⟩ := round_eq h response
    set bytes := response.take b.remainingCapacity with hbytes
    have hnow : (splitLines [] (b.payload ++ bytes)).1.filter (·.length ≤ maxLineLen) <+
        (b.round response).1 := by
      rw [← hlines]
      exact (List.filter_sublist).trans List.filter_sublist
    -- the line under way is either kept, or it was too long anyway
    have hlater : (splitLines (splitLines [] (b.payload ++ bytes)).2
          ((b.round response).2.arrived responses)).1.filter (·.length ≤ maxLineLen) <+
        ((b.round response).2.rounds responses).1 := by
      rcases Nat.lt_or_ge maxLineLen (splitLines [] (b.payload ++ bytes)).2.length with hlt | hle
      · exact (splitLines_overlong hlt _ _).trans (ih h.round)
      · rw [keep_of_le hle] at hpay
        rw [← hpay]
        exact ih h.round
    rw [rounds, splitLines_under_way h.eolFree, arrived, ← List.append_assoc,
      splitLines_append _ (_ ++ _), List.filter_append]
    exact hnow.append hlater

theorem Discards.payload (h : b.Settled) (hd : b.Discards response) :
    (b.round response).2.payload = [] := by
  obtain ⟨-, hpay⟩ := round_eq h response
  exact hpay.trans (keep_of_lt hd)

-- ---------------------------------------------------------------------------
-- The stream
-- ---------------------------------------------------------------------------

/-- The calls of `Driver::apply` are rounds: each ends with the first read that brings nothing. -/
theorem receive_eq_rounds (b : ReadBuffer maxLineLen) (responses : List Text) :
    ∃ n, b.receive responses = b.rounds (responses.take n) := by
  induction responses generalizing b with
  | nil => exact ⟨0, rfl⟩
  | cons response responses ih =>
    cases hfill : b.fill response with
    | none => exact ⟨0, by simp [receive, hfill, rounds]⟩
    | some b' =>
      obtain ⟨n, hn⟩ := ih b'.consumeLines.2
      exact ⟨n + 1, by simp [receive, rounds, round, hfill, hn]⟩

/-- A buffer that was empty at first. After every read at most `maxLineLen` bytes are left, so
that the next one is offered as much room; the lines delivered are those of the stream while
these fit; and after an incomplete line is discarded, the lines that follow and fit are
delivered. What the driver gets is the lines of such reads. -/
theorem delivers_lines (maxLineLen : Nat) :
    (∀ b : ReadBuffer maxLineLen, b.consumeLines.2.payload.length ≤ maxLineLen) ∧
    (∀ responses, let b := (rounds ({} : ReadBuffer maxLineLen) responses).2
      b.payload.length ≤ maxLineLen ∧ maxLineLen ≤ b.remainingCapacity) ∧
    (∀ responses, LinesFit maxLineLen (arrived ({} : ReadBuffer maxLineLen) responses) →
      (rounds ({} : ReadBuffer maxLineLen) responses).1.filter (· ≠ []) =
        completedLines (arrived ({} : ReadBuffer maxLineLen) responses)) ∧
    (∀ before response after, let b := (rounds ({} : ReadBuffer maxLineLen) before).2
      b.Discards response →
        (completedLines ((b.round response).2.arrived after)).filter (·.length ≤ maxLineLen) <+
          ((b.round response).2.rounds after).1) ∧
    ∀ (b : ReadBuffer maxLineLen) responses, ∃ n, b.receive responses = b.rounds (responses.take n) := by
  refine ⟨fun b => (settled_consumeLines b).bounded, fun responses => ?_, fun responses hfit => ?_,
    fun before response after => ?_, receive_eq_rounds⟩
  · have h : (({} : ReadBuffer maxLineLen).rounds responses).2.Settled := Settled.init.rounds
    exact ⟨h.bounded, h.remainingCapacity⟩
  · exact rounds_fit .init hfit
  · intro b hd
    have h : b.Settled := Settled.init.rounds
    have hshort := rounds_short (b := (b.round response).2) h.round after
    rw [hd.payload h] at hshort
    exact hshort

/-- A line in two pieces, and one behind a line that is too long. -/
theorem pieces_delivered :
    (rounds ({} : ReadBuffer 10) ["ok\r\nri".toList, "ng\r\n".toList]).1.filter (· ≠ []) =
      ["ok".toList, "ring".toList] ∧
    ["ok".toList] <+
      (((rounds ({} : ReadBuffer 10) []).2.round "abcdefghijk".toList).2.rounds ["\r\nok\r\n".toList]).1 := by
  obtain ⟨-, -, hfit, hdiscard, -⟩ := delivers_lines 10
  have hlines := hfit ["ok\r\nri".toList, "ng\r\n".toList] (linesFit_of_length (by decide))
  have hlater := hdiscard [] "abcdefghijk".toList ["\r\nok\r\n".toList]
    (show 10 < (splitLines [] (([] : Text) ++ "abcdefghijk".toList)).2.length by decide)
  exact ⟨hlines.trans (by decide), .trans (by decide) hlater⟩

end ReadBuffer

end Allwinner.Modem
