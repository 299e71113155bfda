import Allwinner.Modem.QcfgExchange

/-!
# Fields of a response

What `comma_separated_element` finds in a text of comma-separated fields, and
with it the calls that a `+CLCC:` line lists. The line's value is cut to 99
characters before it is split and the number to 49.
-/

namespace Allwinner.Modem

/-- A character that has no meaning of its own in a quoted string. -/
def isPlain (c : Char) : Bool := c ≠ '"' && c ≠ '\\' && c ≠ '\x00'

/-- A field of a response: nothing at all, a decimal number, or a quoted string. -/
inductive ResponseField where
  | empty
  | decimal (digits : Text) (nonempty : digits ≠ []) (isDigit : digits.all Char.isDigit = true)
  | quoted (body : Text) (plain : body.all isPlain = true)

namespace ResponseField

variable {body : Text}

def text : ResponseField → Text
  | .empty => []
  | .decimal digits _ _ => digits
  | .quoted body _ => '"' :: (body ++ ['"'])

def content : ResponseField → Text
  | .empty => []
  | .decimal digits _ _ => digits
  | .quoted body _ => body

theorem notMem_of_plain (h : body.all isPlain = true) (hc : isPlain c = false) : c ∉ body := by
  intro hmem
  rw [List.all_eq_true.mp h c hmem] at hc
  cases hc

theorem quotable (h : body.all isPlain = true) : Quotable body :=
  ⟨notMem_of_plain h rfl, fun hb => notMem_of_plain h rfl (List.mem_of_getLast? hb)⟩

theorem nul_notMem_text (f : ResponseField) : '\x00' ∉ f.text := by
  cases f with
  | empty => exact List.not_mem_nil
  | decimal digits _ isDigit =>
    intro h
    exact absurd (List.all_eq_true.mp isDigit _ h) (by decide)
  | quoted body plain =>
    have hbody : '\x00' ∉ body := notMem_of_plain plain rfl
    simp [text, hbody]

theorem nul_notMem_content (f : ResponseField) : '\x00' ∉ f.content := by
  cases f with
  | empty => exact List.not_mem_nil
  | decimal digits nonempty isDigit => exact nul_notMem_text (.decimal digits nonempty isDigit)
  | quoted body plain => exact notMem_of_plain plain rfl

theorem length_content_le (f : ResponseField) : f.content.length ≤ f.text.length := by
  cases f with
  | empty => exact Nat.le_refl _
  | decimal digits _ _ => exact Nat.le_refl _
  | quoted body _ =>
    simp only [content, text, List.length_cons, List.length_append, List.length_nil]
    omega

end ResponseField

/-- The text of the fields with commas between them. -/
def joined : List ResponseField → Text
  | [] => []
  | [f] => f.text
  | f :: g :: fields => f.text ++ ',' :: joined (g :: fields)

/-- The content of a field, and nothing if there is no such field. -/
def elementAt (fields : List ResponseField) (i : Nat) : Text :=
  ((fields[i]?).map ResponseField.content).getD []

theorem nul_notMem_joined (fields : List ResponseField) : '\x00' ∉ joined fields := by
  induction fields using joined.induct with
  | case1 => exact List.not_mem_nil
  | case2 f => exact f.nul_notMem_text
  | case3 f g fields ih => simp [joined, f.nul_notMem_text, ih]

theorem nul_notMem_elementAt (fields : List ResponseField) (i : Nat) :
    '\x00' ∉ elementAt fields i := by
  unfold elementAt
  cases fields[i]? with
  | none => exact List.not_mem_nil
  | some f => exact f.nul_notMem_content

theorem elementAt_of_length_le (h : fields.length ≤ i) : elementAt fields i = [] := by
  simp [elementAt, List.getElem?_eq_none h]

theorem elementAt_take (h : i < n) : elementAt (fields.take n) i = elementAt fields i := by
  simp [elementAt, List.getElem?_take_of_lt h]

-- ---------------------------------------------------------------------------
-- Splitting
-- ---------------------------------------------------------------------------

/-- Where a field may end. -/
def Ends (rest : Text) : Prop := rest = [] ∨ rest.head? = some ','

theorem ends_comma (rest : Text) : Ends (',' :: rest) := .inr rfl

/-- What the field splitter relies on of the scanner: also a decimal number up to the
next comma is a token of its own. -/
structure ScansElements (scan : Scanner) : Prop extends ScansFields scan where
  decimal : ∀ digits rest, digits ≠ [] → digits.all Char.isDigit = true → Ends rest →
    scan (digits ++ rest) = ⟨.number, digits⟩ :: scan rest

theorem responseScanner_decimal {digits : Text} (hne : digits ≠ []) (hd : digits.all Char.isDigit = true)
    (hr : Ends rest) :
    responseScanner (digits ++ rest) = ⟨.number, digits⟩ :: responseScanner rest := by
  rw [List.all_eq_true] at hd
  cases digits with
  | nil => exact absurd rfl hne
  | cons c cs =>
    have hc : c.isDigit = true := hd c (by simp)
    have hquote : c ≠ '"' := by
      rintro rfl
      exact absurd hc (by decide)
    have hrest : rest.takeWhile Char.isDigit = [] := by
      rcases hr with rfl | hr
      · rfl
      · cases rest with
        | nil => rfl
        | cons r rs =>
          obtain rfl : r = ',' := by simpa using hr
          rfl
    have htake : (cs ++ rest).takeWhile Char.isDigit = cs := by
      rw [List.takeWhile_append_of_pos fun x hx => hd x (by simp [hx]), hrest, List.append_nil]
    simp only [responseScanner, List.cons_append, List.length_cons, responseScanner.go,
      if_neg hquote, hc, if_true, htake, List.drop_left]
    rw [responseScanner_go (by simp)]
    rfl

theorem responseScanner_scansElements : ScansElements responseScanner where
  toScansFields := responseScanner_scansFields
  decimal _ _ := responseScanner_decimal

namespace commaSeparatedElement

variable {scan : Scanner} {idx commas : Nat} {ts : List Token} {rest : Text}
variable {fields : List ResponseField} {N : Nat}

theorem ofText_nil : Str.ofText N [] = .empty := Str.ext' (by simp [Str.ofText, cstring])

/-- Behind its last comma a field is no longer found. -/
theorem go_passed (h : idx < commas) : go (N := N) idx commas ts = .empty := by
  induction ts generalizing commas with
  | nil => rfl
  | cons t ts ih =>
    have hne : idx ≠ commas := by omega
    simp only [go, ne_eq, hne, not_false_eq_true, if_true]
    split_ifs
    · exact ih (by omega)
    · exact ih h
    · exact ih h

theorem go_comma (hscan : ScansElements scan) (rest : Text) :
    go (N := N) idx commas (scan (',' :: rest)) = go idx (commas + 1) (scan rest) := by
  simp [hscan.comma, go]

/-- At the field's place its content is returned. -/
theorem go_field (hscan : ScansElements scan) (f : ResponseField) (hr : Ends rest) :
    go (N := N) idx idx (scan (f.text ++ rest)) = .ofText N f.content := by
  cases f with
  | empty =>
    rcases hr with rfl | hr
    · simp [ResponseField.text, ResponseField.content, hscan.nil, go, ofText_nil]
    · cases rest with
      | nil => cases hr
      | cons r rs =>
        obtain rfl : r = ',' := by simpa using hr
        exact (go_comma hscan rs).trans ((go_passed (Nat.lt_succ_self idx)).trans ofText_nil.symm)
  | decimal digits nonempty isDigit =>
    simp [ResponseField.text, ResponseField.content, hscan.decimal digits rest nonempty isDigit hr, go]
  | quoted body plain =>
    have h := hscan.string body rest (ResponseField.quotable plain)
    have htext : '"' :: (body ++ ['"']) ++ rest = '"' :: (body ++ '"' :: rest) := by simp
    simp [ResponseField.text, ResponseField.content, -List.cons_append, htext, h, go]

/-- At another place a field is skipped. -/
theorem go_skip (hscan : ScansElements scan) (f : ResponseField) (hr : Ends rest)
    (hne : idx ≠ commas) :
    go (N := N) idx commas (scan (f.text ++ rest)) = go idx commas (scan rest) := by
  cases f with
  | empty => rfl
  | decimal digits nonempty isDigit =>
    simp [ResponseField.text, hscan.decimal digits rest nonempty isDigit hr, go, hne]
  | quoted body plain =>
    have h := hscan.string body rest (ResponseField.quotable plain)
    have htext : '"' :: (body ++ ['"']) ++ rest = '"' :: (body ++ '"' :: rest) := by simp
    simp [ResponseField.text, -List.cons_append, htext, h, go, hne]

/-- Among the fields the count of commas stays in step with the place. -/
theorem go_joined (hscan : ScansElements scan) (commas i : Nat) (hi : i < fields.length) (hr : Ends rest) :
    go (N := N) (commas + i) commas (scan (joined fields ++ rest)) =
      .ofText N (elementAt fields i) := by
  induction fields using joined.induct generalizing commas i with
  | case1 => cases hi
  | case2 f =>
    obtain rfl : i = 0 := by simpa using hi
    exact go_field hscan f hr
  | case3 f g fields ih =>
    have htext : joined (f :: g :: fields) ++ rest =
        f.text ++ ',' :: (joined (g :: fields) ++ rest) := by
      simp [joined]
    rw [htext]
    cases i with
    | zero => exact go_field hscan f (ends_comma _)
    | succ i =>
      have hi : i < (g :: fields).length := by simpa using hi
      calc go (commas + (i + 1)) commas (scan (f.text ++ ',' :: (joined (g :: fields) ++ rest)))
        _ = go (commas + 1 + i) (commas + 1) (scan (joined (g :: fields) ++ rest)) := by
          rw [go_skip hscan f (ends_comma _) (by omega), go_comma hscan]
          congr 1
          omega
        _ = .ofText N (elementAt (f :: g :: fields) (i + 1)) := ih _ i hi

/-- Behind the last field nothing is found. -/
theorem go_beyond (hscan : ScansElements scan) (commas i : Nat) (hi : fields.length ≤ i) (hpos : 0 < i) :
    go (N := N) (commas + i) commas (scan (joined fields)) = .empty := by
  induction fields using joined.induct generalizing commas i with
  | case1 => simp [joined, hscan.nil, go]
  | case2 f =>
    have h := go_skip (N := N) hscan f (.inl rfl) (by omega : commas + i ≠ commas)
    rw [List.append_nil] at h
    rw [joined, h, hscan.nil]
    rfl
  | case3 f g fields ih =>
    obtain ⟨j, rfl⟩ : ∃ j, i = j + 1 := ⟨i - 1, by omega⟩
    have hj : (g :: fields).length ≤ j := by simpa using hi
    rw [joined, go_skip hscan f (ends_comma _) (by omega), go_comma hscan,
      show commas + (j + 1) = commas + 1 + j by omega]
    exact ih _ j hj (by simp at hj; omega)

/-- In the text of the fields, the element is the content of the field. -/
theorem of_joined (hscan : ScansElements scan) (s : Str N) (hs : s.chars = joined fields) (i : Nat) :
    commaSeparatedElement scan i s = .ofText N (elementAt fields i) := by
  unfold commaSeparatedElement
  rw [hs]
  by_cases hi : i < fields.length
  · have h := go_joined (N := N) hscan 0 i hi (.inl rfl)
    rwa [List.append_nil, Nat.zero_add] at h
  · have hle : fields.length ≤ i := by omega
    rw [elementAt_of_length_le hle, ofText_nil]
    by_cases hpos : 0 < i
    · have h := go_beyond (N := N) hscan 0 i hle hpos
      rwa [Nat.zero_add] at h
    · obtain rfl : fields = [] := List.eq_nil_of_length_eq_zero (by omega)
      simp [joined, hscan.nil, go]

/-- Elements of a text fit where the text does. -/
theorem length_elementAt_le (fields : List ResponseField) (i : Nat) :
    (elementAt fields i).length ≤ (joined fields).length := by
  induction fields using joined.induct generalizing i with
  | case1 => simp [elementAt]
  | case2 f =>
    cases i with
    | zero => exact f.length_content_le
    | succ i => simp [elementAt]
  | case3 f g fields ih =>
    cases i with
    | zero =>
      refine f.length_content_le.trans ?_
      rw [joined, List.length_append]
      exact Nat.le_add_right _ _
    | succ i =>
      have h := ih i
      have heq : elementAt (f :: g :: fields) (i + 1) = elementAt (g :: fields) i := rfl
      rw [heq, joined, List.length_append, List.length_cons]
      omega

theorem chars_of_joined (hscan : ScansElements scan) (s : Str N) (hs : s.chars = joined fields)
    (i : Nat) : (commaSeparatedElement scan i s).chars = elementAt fields i := by
  have hlen := length_elementAt_le fields i
  have hfits := s.fits
  rw [hs] at hfits
  rw [of_joined hscan s hs i]
  exact Str.chars_ofText (nul_notMem_elementAt _ _) (hlen.trans hfits)

end commaSeparatedElement

-- ---------------------------------------------------------------------------
-- Listed calls
-- ---------------------------------------------------------------------------

/-- The first fields, and what follows them: the end or a comma. -/
theorem joined_split (fields : List ResponseField) (n : Nat) :
    ∃ rest, joined fields = joined (fields.take (n + 1)) ++ rest ∧ Ends rest ∧
      (fields.length ≤ n + 1 → rest = []) := by
  induction fields using joined.induct generalizing n with
  | case1 => exact ⟨[], rfl, .inl rfl, fun _ => rfl⟩
  | case2 f => exact ⟨[], by simp [joined], .inl rfl, fun _ => rfl⟩
  | case3 f g fields ih =>
    cases n with
    | zero => exact ⟨',' :: joined (g :: fields), rfl, ends_comma _, fun h => by simp at h⟩
    | succ n =>
      obtain ⟨rest, htext, hends, hlast⟩ := ih n
      refine ⟨rest, ?_, hends, fun h => hlast (by simpa using h)⟩
      rw [joined, htext]
      simp [joined]

theorem Ends.take (h : Ends rest) (n : Nat) : Ends (rest.take n) := by
  rcases h with rfl | h
  · simp [Ends]
  · cases n with
    | zero => exact .inl rfl
    | succ n =>
      cases rest with
      | nil => cases h
      | cons c cs => exact .inr h

/-- A text that is too long is cut behind the fields that fit. -/
theorem chars_cut (fields : List ResponseField) (n : Nat)
    (hfit : (joined (fields.take (n + 1))).length ≤ N - 1) :
    ∃ rest, (Str.ofText N (joined fields)).chars = joined (fields.take (n + 1)) ++ rest ∧
      Ends rest ∧ (fields.length ≤ n + 1 → rest = []) := by
  obtain ⟨rest, htext, hends, hlast⟩ := joined_split fields n
  refine ⟨rest.take (N - 1 - (joined (fields.take (n + 1))).length), ?_, hends.take _, fun h => ?_⟩
  · simp only [Str.ofText]
    rw [Str.cstring_eq (nul_notMem_joined fields), htext, List.take_append,
      List.take_of_length_le hfit]
  · rw [hlast h, List.take_nil]

/-- A field that survives the cut is found. -/
theorem element_cut (hscan : ScansElements scan) (fields : List ResponseField) (hi : i < n + 1)
    (hfit : (joined (fields.take (n + 1))).length ≤ N - 1) :
    commaSeparatedElement scan i (Str.ofText N (joined fields)) =
      .ofText N (elementAt fields i) := by
  obtain ⟨rest, hchars, hends, hlast⟩ := chars_cut fields n hfit
  by_cases hin : i < (fields.take (n + 1)).length
  · have h := commaSeparatedElement.go_joined (N := N) hscan 0 i hin hends
    rw [Nat.zero_add, ← hchars, elementAt_take hi] at h
    exact h
  · have hle : fields.length ≤ n + 1 := by
      rw [List.length_take] at hin
      omega
    refine commaSeparatedElement.of_joined hscan _ ?_ i
    rw [hchars, hlast hle, List.append_nil, List.take_of_length_le hle]

theorem chars_element_cut (hscan : ScansElements scan) (fields : List ResponseField)
    (hi : i < n + 1) (hfit : (joined (fields.take (n + 1))).length ≤ N - 1) :
    (commaSeparatedElement scan i (Str.ofText N (joined fields))).chars = elementAt fields i := by
  have hlen := commaSeparatedElement.length_elementAt_le (fields.take (n + 1)) i
  rw [elementAt_take hi] at hlen
  rw [element_cut hscan fields hi hfit]
  exact Str.chars_ofText (nul_notMem_elementAt _ _) (hlen.trans hfit)

namespace Call

/-- A line of the call list. -/
def listLine (fields : List ResponseField) : Text := clccPrefix ++ joined fields

theorem withValue_listLine : withValue (listLine fields) clccPrefix = some (joined fields) := by
  unfold withValue
  rw [if_pos (by simp [startsWith, listLine]), listLine, List.drop_left]

/-- States of a call the driver distinguishes. -/
def knownStates : List Text := [['0'], ['2'], ['3'], ['4']]

theorem statFromValue_ne_unsupported (scan : Scanner) (v : Str 100) :
    statFromValue scan v ≠ .unsupported ↔
      (commaSeparatedElement scan 2 v).chars ∈ knownStates := by
  unfold statFromValue knownStates
  simp only
  split_ifs <;> simp_all

/-- Which lines list a call, and its number. -/
theorem ofLine_listLine (scan : Scanner) (fields : List ResponseField) :
    ofLine scan (listLine fields) =
      if (commaSeparatedElement scan 3 (Str.ofText 100 (joined fields))).chars = ['0'] ∧
          (commaSeparatedElement scan 2 (Str.ofText 100 (joined fields))).chars ∈ knownStates then
        some {
          number := (commaSeparatedElement scan 5 (Str.ofText 100 (joined fields))).cast 50
          stat := statFromValue scan (Str.ofText 100 (joined fields)) }
      else none := by
  unfold ofLine
  simp only [withValue_listLine, decide_eq_true_eq, statFromValue_ne_unsupported]

/-- A line lists a call by its mode and its state, if the first four fields survive the cut. -/
theorem listed_iff (hscan : ScansElements scan) (fields : List ResponseField)
    (hfit : (joined (fields.take 4)).length ≤ 99) :
    (ofLine scan (listLine fields)).isSome ↔
      elementAt fields 3 = ['0'] ∧ elementAt fields 2 ∈ knownStates := by
  rw [ofLine_listLine, chars_element_cut hscan fields (by omega : 3 < 3 + 1) hfit,
    chars_element_cut hscan fields (by omega : 2 < 3 + 1) hfit]
  split_ifs with h <;> simp [h]

/-- The number is the content of the sixth field, cut to its capacity. -/
theorem number_listed (hscan : ScansElements scan) (fields : List ResponseField)
    (hfit : (joined (fields.take 6)).length ≤ 99)
    (hcall : ofLine scan (listLine fields) = some call) :
    call.number.chars = (elementAt fields 5).take 49 := by
  rw [ofLine_listLine] at hcall
  split_ifs at hcall
  cases hcall
  rw [element_cut hscan fields (by omega : 5 < 5 + 1) hfit, Str.cast,
    Str.ofText_ofText (by omega)]
  simp [Str.ofText, Str.cstring_eq (nul_notMem_elementAt _ _)]

end Call

/-- The elements of a text of fields are their contents, at any place and in strings of any
capacity; and lines of the call list are understood by them, as far as the fields survive the cut
to 99 characters. -/
theorem fields_understood (scan : Scanner) (hscan : ScansElements scan) :
    (∀ (N : Nat) (s : Str N) (fields : List ResponseField) (i : Nat), s.chars = joined fields →
      (commaSeparatedElement scan i s).chars = elementAt fields i) ∧
    (∀ fields : List ResponseField, (joined (fields.take 4)).length ≤ 99 →
      ((Call.ofLine scan (Call.listLine fields)).isSome ↔
        elementAt fields 3 = ['0'] ∧ elementAt fields 2 ∈ Call.knownStates)) ∧
    ∀ (fields : List ResponseField) (call : Call), (joined (fields.take 6)).length ≤ 99 →
      Call.ofLine scan (Call.listLine fields) = some call →
      call.number.chars = (elementAt fields 5).take 49 :=
  ⟨fun _ s _ i hs => commaSeparatedElement.chars_of_joined hscan s hs i,
    fun fields hfit => Call.listed_iff hscan fields hfit,
    fun fields _ hfit hcall => Call.number_listed hscan fields hfit hcall⟩

-- A line of the call list, with the given first field.
def incomingFields (index : ResponseField) : List ResponseField :=
  [index, .decimal ['1'] (by simp) (by decide), .decimal ['4'] (by simp) (by decide),
    .decimal ['0'] (by simp) (by decide), .empty, .quoted "+491,23".toList (by decide)]

/-- A first field of so many digits that the mode is cut off. -/
def longIndex : ResponseField := .decimal (List.replicate 99 '1') (by simp) (by decide)

theorem incoming_understood :
    (commaSeparatedElement responseScanner 5 (.ofText 100 "1,1,4,0,,\"+491,23\"".toList)).chars =
        "+491,23".toList ∧
      (Call.ofLine responseScanner "+CLCC: 1,1,4,0,,\"+491,23\"".toList).isSome := by
  have h := fields_understood responseScanner responseScanner_scansElements
  have hfields : joined (incomingFields (.decimal ['1'] (by simp) (by decide))) =
      "1,1,4,0,,\"+491,23\"".toList := by decide
  refine ⟨?_, ?_⟩
  · exact h.1 100 _ (incomingFields (.decimal ['1'] (by simp) (by decide))) 5 (by decide)
  · have hlisted := (h.2.1 (incomingFields (.decimal ['1'] (by simp) (by decide)))
      (by decide)).mpr ⟨by decide, by decide⟩
    rwa [Call.listLine, hfields] at hlisted

/-- An incoming call is not recognised behind an overlong first field. -/
theorem overlong_unlisted : ¬ ∀ scan, ScansElements scan → ∀ fields : List ResponseField,
    ((Call.ofLine scan (Call.listLine fields)).isSome ↔
      elementAt fields 3 = ['0'] ∧ elementAt fields 2 ∈ Call.knownStates) := by
  intro h
  have hlisted := (h responseScanner responseScanner_scansElements (incomingFields longIndex)).mpr
    ⟨by decide, by decide⟩
  exact absurd hlisted (by decide)

end Allwinner.Modem
