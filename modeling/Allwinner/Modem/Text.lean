import Mathlib.Data.List.TakeWhile
import Mathlib.Algebra.GroupWithZero.Nat

/-!
# Texts of the AT protocol

A byte string is a list of characters, one character a byte. `String<N>` keeps
at most `N - 1` characters in front of its terminating null byte; a text that
is too long is cut, and a null byte ends it.
-/

namespace Allwinner.Modem

abbrev Text := List Char

/-- What `Cstring` prints: everything up to the first null byte. -/
def cstring (t : Text) : Text := t.takeWhile (· ≠ '\x00')

theorem cstring_no_nul (t : Text) : '\x00' ∉ cstring t := by
  intro h
  simpa using List.mem_takeWhile_imp h

/-- `String<N>`. -/
structure Str (N : Nat) where
  chars : Text
  fits : chars.length ≤ N - 1
  noNul : '\x00' ∉ chars
  deriving DecidableEq

namespace Str

variable {N M : Nat}

/-- The string constructed from printed text. -/
def ofText (N : Nat) (t : Text) : Str N where
  chars := (cstring t).take (N - 1)
  fits := List.length_take_le _ _
  noNul h := cstring_no_nul t (List.mem_of_mem_take h)

def empty : Str N := ⟨[], by simp, by simp⟩

/-- The string converted to another capacity. -/
def cast (M : Nat) (s : Str N) : Str M := ofText M s.chars

theorem ext' {s t : Str N} (h : s.chars = t.chars) : s = t := by
  cases s; cases t; simpa using h

@[simp] theorem chars_empty : (empty : Str N).chars = [] := rfl

theorem cstring_eq (h : '\x00' ∉ t) : cstring t = t :=
  List.takeWhile_eq_self_iff.mpr fun c hc => by
    simp only [ne_eq, decide_eq_true_eq]
    rintro rfl
    exact h hc

theorem chars_ofText (hn : '\x00' ∉ t) (hl : t.length ≤ N - 1) : (ofText N t).chars = t := by
  simp [ofText, cstring_eq hn, List.take_of_length_le hl]

theorem ofText_prefix (N : Nat) (t : Text) : (ofText N t).chars <+: t :=
  (List.take_prefix _ _).trans (List.takeWhile_prefix _)

/-- A cut text starts like the text itself, as far as the capacity reaches. -/
theorem prefix_ofText (hp : p <+: t) (hn : '\x00' ∉ p) (hl : p.length ≤ N - 1) :
    p <+: (ofText N t).chars := by
  obtain ⟨u, rfl⟩ := hp
  have hc : cstring (p ++ u) = p ++ cstring u := by
    unfold cstring
    rw [List.takeWhile_append, if_pos]
    exact congrArg List.length (cstring_eq hn)
  simp only [ofText, hc, List.take_append, List.take_of_length_le hl]
  exact List.prefix_append _ _

/-- `starts_with` of a string. -/
def startsWith (s : Str N) (p : Text) : Bool := p.isPrefixOf s.chars

theorem startsWith_iff {s : Str N} : s.startsWith p = true ↔ p <+: s.chars := by
  simp [startsWith]

end Str

-- ---------------------------------------------------------------------------
-- Lines
-- ---------------------------------------------------------------------------

/-- `Line::starts_with`. -/
def startsWith (line p : Text) : Bool := p.isPrefixOf line

/-- `Line::with_value`: what follows the prefix, if the line has it. -/
def withValue (line p : Text) : Option Text :=
  if startsWith line p then some (line.drop p.length) else none

theorem withValue_isSome : (withValue line p).isSome = startsWith line p := by
  unfold withValue; split <;> simp_all

-- ---------------------------------------------------------------------------
-- Tokens
-- ---------------------------------------------------------------------------

/-- The token types of the scanner used for modem responses. -/
inductive TokenType where
  | singleChar | number | ident | string | whitespace
  deriving DecidableEq, Repr

structure Token where
  type : TokenType
  text : Text
  deriving DecidableEq

/-- The tokenizer is not part of the repository: the tokens of a text up to its
end. -/
abbrev Scanner := Text → List Token

/-- A scanner for the plain fields of a response, which the examples use:
quoted strings, numbers, and everything else one character a token. -/
def plainScanner : Scanner := fun t => go t.length t
where
  go : Nat → Text → List Token
    | 0, _ => []
    | _, [] => []
    | fuel + 1, c :: cs =>
      if c = '"' then
        let body := cs.takeWhile (· ≠ '"')
        ⟨.string, c :: body ++ ['"']⟩ :: go fuel (cs.drop (body.length + 1))
      else if c.isDigit then
        let digits := c :: cs.takeWhile Char.isDigit
        ⟨.number, digits⟩ :: go fuel (cs.drop (digits.length - 1))
      else ⟨.singleChar, [c]⟩ :: go fuel cs

/-- `comma_separated_element`: the first number or quoted string after `idx` commas. -/
def commaSeparatedElement (scan : Scanner) (idx : Nat) (s : Str N) : Str N :=
  go 0 (scan s.chars)
where
  go (commas : Nat) : List Token → Str N
    | [] => .empty
    | t :: rest =>
      if t.type = .singleChar then
        go (if t.text.head? = some ',' then commas + 1 else commas) rest
      else if idx ≠ commas then go commas rest
      else if t.type = .number then .ofText N t.text
      -- a quoted string is returned without its quote characters
      else if t.type = .string then .ofText N ((t.text.drop 1).take (t.text.length - 2))
      else go commas rest

end Allwinner.Modem
