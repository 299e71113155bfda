import Allwinner.Modem.Control
import Allwinner.Modem.StatusLaws

/-!
# Settings commands and the responses to them

`Control` prints the name and the value of a setting into a command, `Status`
recovers both from the text of the pending command or of a response. The two
agree on every name, and on every value whose first field the splitter can
return: it skips identifiers.
-/

namespace Allwinner.Modem

-- ---------------------------------------------------------------------------
-- Scanning the fields
-- ---------------------------------------------------------------------------

/-- In quotation marks the text is one token: none of its characters ends it, and the
last one does not escape the closing mark. -/
def Quotable (t : Text) : Prop := '"' ∉ t ∧ t.getLast? ≠ some '\\'

instance : DecidablePred Quotable := fun t =>
  inferInstanceAs (Decidable ('"' ∉ t ∧ t.getLast? ≠ some '\\'))

/-- What the field splitter relies on of the scanner: a quoted string and a comma
are tokens of their own. -/
structure ScansFields (scan : Scanner) : Prop where
  nil : scan [] = []
  string : ∀ body rest, Quotable body →
    scan ('"' :: (body ++ '"' :: rest)) = ⟨.string, '"' :: (body ++ ['"'])⟩ :: scan rest
  comma : ∀ rest, scan (',' :: rest) = ⟨.singleChar, [',']⟩ :: scan rest

def identStart (c : Char) : Bool := c.isAlpha || c = '_'

def identChar (c : Char) : Bool := identStart c || c.isDigit

/-- A scanner with the token types of the one the driver uses. -/
def responseScanner : Scanner := fun t => go t.length t
where
  go : Nat → Text → List Token
    | 0, _ => []
    | _, [] => []
    | fuel + 1, c :: cs =>
      if c = '"' then
        let body := cs.takeWhile (· ≠ '"')
        if body = cs then [] else ⟨.string, c :: (body ++ ['"'])⟩ :: go fuel (cs.drop (body.length + 1))
      else if c.isDigit then
        let digits := cs.takeWhile Char.isDigit
        ⟨.number, c :: digits⟩ :: go fuel (cs.drop digits.length)
      else if identStart c then
        let chars := cs.takeWhile identChar
        ⟨.ident, c :: chars⟩ :: go fuel (cs.drop chars.length)
      else if c.isWhitespace then
        let blanks := cs.takeWhile Char.isWhitespace
        ⟨.whitespace, c :: blanks⟩ :: go fuel (cs.drop blanks.length)
      else ⟨.singleChar, [c]⟩ :: go fuel cs

theorem responseScanner_go (hf : t.length ≤ fuel) :
    responseScanner.go fuel t = responseScanner t := by
  suffices h : ∀ n f t, t.length ≤ n → n ≤ f →
      responseScanner.go f t = responseScanner.go n t by
    exact h t.length fuel t le_rfl hf
  intro n
  induction n with
  | zero =>
    intro f t ht _
    obtain rfl := List.length_eq_zero_iff.mp (Nat.le_zero.mp ht)
    cases f <;> rfl
  | succ n ih =>
    intro f t ht hf
    obtain ⟨f, rfl⟩ : ∃ g, f = g + 1 := ⟨f - 1, by omega⟩
    cases t with
    | nil => rfl
    | cons c cs =>
      have hlen : cs.length ≤ n := by simpa using ht
      have hdrop : ∀ k, responseScanner.go f (cs.drop k) = responseScanner.go n (cs.drop k) :=
        fun k => ih f _ (by simp; omega) (by omega)
      simp only [responseScanner.go, hdrop, ih f cs hlen (by omega)]

theorem responseScanner_string (hb : '"' ∉ body) (rest : Text) :
    responseScanner ('"' :: (body ++ '"' :: rest)) =
      ⟨.string, '"' :: (body ++ ['"'])⟩ :: responseScanner rest := by
  have htake : (body ++ '"' :: rest).takeWhile (· ≠ '"') = body := by
    rw [List.takeWhile_append_of_pos fun c hc => by
      simp only [ne_eq, decide_eq_true_eq]
      rintro rfl
      exact hb hc]
    simp
  have hne : body ≠ body ++ '"' :: rest := by simp
  have hdrop : (body ++ '"' :: rest).drop (body.length + 1) = rest := by simp
  simp only [responseScanner, responseScanner.go, List.length_cons, if_true, htake,
    if_neg hne, hdrop]
  rw [responseScanner_go (by simp; omega)]
  rfl

theorem responseScanner_scansFields : ScansFields responseScanner where
  nil := rfl
  string _ rest hb := responseScanner_string hb.1 rest
  comma rest := by
    have hc : (',' : Char) ≠ '"' ∧ (',' : Char).isDigit = false ∧ identStart ',' = false ∧
        (',' : Char).isWhitespace = false := by decide
    simp only [responseScanner, responseScanner.go, List.length_cons, if_neg hc.1, hc.2.1,
      hc.2.2.1, hc.2.2.2, Bool.false_eq_true, if_false]

-- ---------------------------------------------------------------------------
-- Splitting the fields
-- ---------------------------------------------------------------------------

theorem Str.ofText_chars_eq_nil (hN : 2 ≤ N) : (Str.ofText N t).chars = [] ↔ cstring t = [] := by
  simp only [Str.ofText, List.take_eq_nil_iff]
  exact ⟨fun h => h.resolve_left (by omega), .inr⟩

theorem Str.ofText_ofText (h : M ≤ N) (t : Text) :
    (Str.ofText M (Str.ofText N t).chars) = Str.ofText M t := by
  apply Str.ext'
  simp only [Str.ofText]
  rw [cstring_eq fun hm => cstring_no_nul t (List.mem_of_mem_take hm), List.take_take,
    Nat.min_eq_left (by omega)]

namespace commaSeparatedElement

variable {scan : Scanner} {s : Str N} {ts : List Token} {body rest : Text} {idx commas : Nat}

/-- Counting from a later comma finds the same field, in strings of any capacity. -/
theorem go_succ_eq_nil (hN : 2 ≤ N) (hM : 2 ≤ M) :
    (go (N := N) (idx + 1) (commas + 1) ts).chars = [] ↔ (go (N := M) idx commas ts).chars = [] := by
  induction ts generalizing commas with
  | nil => simp [go]
  | cons t ts ih =>
    have htext : ∀ u, (Str.ofText N u).chars = [] ↔ (Str.ofText M u).chars = [] := fun u => by
      rw [Str.ofText_chars_eq_nil hN, Str.ofText_chars_eq_nil hM]
    simp only [go, ne_eq, Nat.add_right_cancel_iff]
    split_ifs <;> first | exact ih | exact htext _

/-- The field in front of the first comma, if it is quoted. -/
theorem quoted (hscan : ScansFields scan) (hb : Quotable body)
    (hs : s.chars = '"' :: (body ++ '"' :: rest)) :
    commaSeparatedElement scan 0 s = .ofText N body := by
  have htext : (('"' :: (body ++ ['"'])).drop 1).take (('"' :: (body ++ ['"'])).length - 2) = body := by
    simp
  simp [commaSeparatedElement, hs, hscan.string body rest hb, go]

/-- The field behind a quoted one. -/
theorem afterQuoted (hscan : ScansFields scan) (hb : Quotable body)
    (hs : s.chars = '"' :: (body ++ '"' :: ',' :: rest)) :
    commaSeparatedElement scan 1 s = go 1 1 (scan rest) := by
  simp [commaSeparatedElement, hs, hscan.string body _ hb, hscan.comma, go]

/-- There is no second field in a quoted one alone. -/
theorem onlyQuoted (hscan : ScansFields scan) (hb : Quotable body)
    (hs : s.chars = '"' :: (body ++ ['"'])) : commaSeparatedElement scan 1 s = .empty := by
  simp [commaSeparatedElement, hs, hscan.string body [] hb, hscan.nil, go]

end commaSeparatedElement

-- ---------------------------------------------------------------------------
-- The registry
-- ---------------------------------------------------------------------------

namespace Qcfg

variable {q : Qcfg} {e : Entry}

/-- Names occur once and can be quoted. -/
structure WellNamed (q : Qcfg) : Prop where
  nodup : (q.map Entry.name).Nodup
  quotable : ∀ e ∈ q, Quotable e.name.chars

/-- Entry `e` alone takes another state. -/
def mark (q : Qcfg) (e : Entry) (t : State) : Qcfg :=
  q.map fun x => if x = e then { x with state := t } else x

theorem hasEntry_of_mem (he : e ∈ q) : q.hasEntry e.name = true := by
  simp only [hasEntry, List.any_eq_true, decide_eq_true_eq]
  exact ⟨e, he, rfl⟩

theorem mark_eq_self (h : ∀ x ∈ q, x = e → e.state = t) : q.mark e t = q := by
  refine (List.map_congr_left fun x hx => ?_).trans (List.map_id q)
  by_cases hxe : x = e
  · rw [if_pos hxe, ← h x hx hxe, ← hxe]
    rfl
  · rw [if_neg hxe]
    rfl

theorem withEntry_eq_mark (hn : (q.map Entry.name).Nodup) (he : e ∈ q) (fn : Entry → State) :
    q.withEntry e.name fn = q.mark e (fn e) := by
  induction q with
  | nil => cases he
  | cons x xs ih =>
    obtain ⟨hx, hn⟩ := List.nodup_cons.mp hn
    by_cases hxe : x = e
    · subst hxe
      have hxs : x ∉ xs := fun h => hx (List.mem_map_of_mem h)
      have hrest : mark xs x (fn x) = xs :=
        mark_eq_self fun y hy hyx => absurd (hyx ▸ hy) hxs
      calc withEntry (x :: xs) x.name fn
        _ = { x with state := fn x } :: xs := by simp only [withEntry, if_true]
        _ = { x with state := fn x } :: mark xs x (fn x) := by rw [hrest]
        _ = mark (x :: xs) x (fn x) := by simp only [mark, List.map_cons, if_true]
    · have he : e ∈ xs := (List.mem_cons.mp he).resolve_left (Ne.symm hxe)
      have hne : x.name ≠ e.name := fun h => hx (h ▸ List.mem_map_of_mem he)
      simp only [withEntry, if_neg hne, ih hn he, mark, List.map_cons, if_neg hxe]

theorem mark_eq_self_iff (he : e ∈ q) : q.mark e t = q ↔ e.state = t := by
  constructor
  · intro h
    have hmem : e ∈ q.map fun x => if x = e then { x with state := t } else x := by
      rw [← mark, h]
      exact he
    obtain ⟨x, -, hx⟩ := List.mem_map.mp hmem
    by_cases hxe : x = e
    · rw [if_pos hxe] at hx
      exact (congrArg Entry.state hx).symm
    · rw [if_neg hxe] at hx
      exact absurd hx hxe
  · exact fun h => mark_eq_self fun _ _ _ => h

end Qcfg

-- ---------------------------------------------------------------------------
-- Commands and responses
-- ---------------------------------------------------------------------------

namespace QcfgExchange

open Status

variable {scan : Scanner} {q : Qcfg} {e : Qcfg.Entry} {name : Qcfg.Name} {value : Qcfg.Value} {s : Status}

/-- The line `+QCFG: "name",v`. -/
def reportLine (name : Qcfg.Name) (v : Qcfg.Value) : Text :=
  qcfgPrefix ++ '"' :: (name.chars ++ '"' :: ',' :: v.chars)

/-- The responses to the commands for an entry, and the modem's report of it, change
this entry alone and as they say. -/
structure Agrees (scan : Scanner) (q : Qcfg) (e : Qcfg.Entry) : Prop where
  assigned : ∀ s : Status, s.qcfg = q →
    s.pendingCommand = some (Request.assignQcfg e.name e.value).command →
    (s.applyLine scan lineOk).qcfg = q.mark e .modified
  queried : ∀ s : Status, s.qcfg = q →
    s.pendingCommand = some (Request.queryQcfg e.name).command →
    (s.applyLine scan lineOk).qcfg = q
  reported : ∀ (s : Status) (v : Qcfg.Value), s.qcfg = q →
    (s.applyLine scan (reportLine e.name v)).qcfg =
      q.mark e (if e.value = v then .confirmed else .mismatch)

theorem chars_assignCommand (name : Qcfg.Name) (value : Qcfg.Value) : (Request.assignQcfg name value).command.chars =
    atQcfgPrefix ++ '"' :: (name.chars ++ '"' :: ',' :: value.chars) := by
  have hn := name.noNul
  have hv := value.noNul
  have hnl := name.fits
  have hvl := value.fits
  have hp : '\x00' ∉ atQcfgPrefix := by decide
  have hlen : atQcfgPrefix.length = 8 := rfl
  refine (Str.chars_ofText ?_ ?_).trans ?_
  · simp [hp, hn, hv]
  · simp; omega
  · simp

theorem chars_queryCommand : (Request.queryQcfg name).command.chars =
    atQcfgPrefix ++ '"' :: (name.chars ++ ['"']) := by
  have hn := name.noNul
  have hnl := name.fits
  have hp : '\x00' ∉ atQcfgPrefix := by decide
  have hlen : atQcfgPrefix.length = 8 := rfl
  refine (Str.chars_ofText ?_ ?_).trans ?_
  · simp [hp, hn]
  · simp; omega
  · simp

/-- A name cut to the capacity of a field and back is the name. -/
theorem cast_name (h : 32 ≤ N) : (Str.ofText N name.chars).cast 32 = name :=
  (Str.ofText_ofText h name.chars).trans
    (Str.ext' (Str.chars_ofText name.noNul name.fits))

/-- A settings command is not the one that reboots the modem. -/
theorem not_confirmsReboot (hp : s.pendingCommand = some c) (hc : atQcfgPrefix <+: c.chars) :
    ¬ s.ConfirmsReboot l := by
  rintro ⟨-, h⟩
  rw [hp, isPending_some, decide_eq_true_eq] at h
  rw [h] at hc
  exact absurd hc (by decide)

theorem queriedQcfg_ok : queriedQcfg scan q lineOk = none := rfl

/-- The registry after the `OK` to a settings command. -/
theorem qcfg_ok (hp : s.pendingCommand = some c) (hc : atQcfgPrefix <+: c.chars) :
    (s.applyLine scan lineOk).qcfg = (assignedQcfg scan s.qcfg c).getD s.qcfg := by
  rw [qcfg_applyLine, if_neg (not_confirmsReboot hp hc)]
  simp [qcfgAfter, queriedQcfg_ok, assignmentOf, hp]

/-- The field of the command that says whether it assigns anything. -/
theorem assignedQcfg_assign (hscan : ScansFields scan) (hq : q.WellNamed) (he : e ∈ q) :
    assignedQcfg scan q (Request.assignQcfg e.name e.value).command =
      if (commaSeparatedElement scan 0 e.value).chars = [] then none
      else some (q.mark e .modified) := by
  have hname := hq.quotable e he
  have hchars := chars_assignCommand e.name e.value
  have hp : (Request.assignQcfg e.name e.value).command.startsWith atQcfgPrefix = true :=
    Str.startsWith_iff.mpr (hchars ▸ List.prefix_append _ _)
  have hattr : (Str.ofText 100 ((Request.assignQcfg e.name e.value).command.chars.drop
      atQcfgPrefix.length)).chars = '"' :: (e.name.chars ++ '"' :: ',' :: e.value.chars) := by
    have hn := e.name.noNul
    have hv := e.value.noNul
    have hnl := e.name.fits
    have hvl := e.value.fits
    rw [hchars, List.drop_left]
    refine Str.chars_ofText ?_ ?_
    · simp [hn, hv]
    · simp; omega
  have hfield : (Str.cast 32 (commaSeparatedElement scan 1 (Str.ofText 100
        ((Request.assignQcfg e.name e.value).command.chars.drop atQcfgPrefix.length)))).chars = [] ↔
      (commaSeparatedElement scan 0 e.value).chars = [] := by
    rw [commaSeparatedElement.afterQuoted hscan hname hattr, Str.cast,
      Str.ofText_chars_eq_nil (by omega), Str.cstring_eq (Str.noNul _)]
    exact commaSeparatedElement.go_succ_eq_nil (by omega) (by omega)
  unfold assignedQcfg
  rw [if_pos hp]
  simp only [hfield, commaSeparatedElement.quoted hscan hname hattr]
  rw [cast_name (by omega), if_pos (Qcfg.hasEntry_of_mem he), Qcfg.withEntry_eq_mark hq.nodup he]

theorem assignedQcfg_query (hscan : ScansFields scan) (hq : q.WellNamed) (he : e ∈ q) :
    assignedQcfg scan q (Request.queryQcfg e.name).command = none := by
  have hname := hq.quotable e he
  have hattr : (Str.ofText 100 ((Request.queryQcfg e.name).command.chars.drop
      atQcfgPrefix.length)).chars = '"' :: (e.name.chars ++ ['"']) := by
    have hn := e.name.noNul
    have hnl := e.name.fits
    rw [chars_queryCommand, List.drop_left]
    refine Str.chars_ofText ?_ ?_
    · simp [hn]
    · simp
      omega
  unfold assignedQcfg
  split_ifs with hp
  · simp only [commaSeparatedElement.onlyQuoted hscan hname hattr]
    rw [if_pos]
    simp [Str.cast, Str.ofText, cstring]
  · rfl

/-- The value of a report is what follows the name, whatever it consists of. -/
theorem queriedQcfg_report (hscan : ScansFields scan) (hq : q.WellNamed) (he : e ∈ q)
    (v : Qcfg.Value) : queriedQcfg scan q (reportLine e.name v) =
      some (q.mark e (if e.value = v then .confirmed else .mismatch)) := by
  have hname := hq.quotable e he
  have hval : withValue (reportLine e.name v) qcfgPrefix =
      some ('"' :: (e.name.chars ++ '"' :: ',' :: v.chars)) := by
    unfold withValue
    rw [if_pos (by simp [startsWith, reportLine]), reportLine, List.drop_left]
  have hchars : (Str.ofText 100 ('"' :: (e.name.chars ++ '"' :: ',' :: v.chars))).chars =
      '"' :: (e.name.chars ++ '"' :: ',' :: v.chars) := by
    have hn := e.name.noNul
    have hv := v.noNul
    have hnl := e.name.fits
    have hvl := v.fits
    refine Str.chars_ofText ?_ ?_
    · simp [hn, hv]
    · simp; omega
  have hdrop : ('"' :: (e.name.chars ++ '"' :: ',' :: v.chars)).drop (e.name.chars.length + 1 + 2) =
      v.chars := by
    simp
  have hlen : ¬ ('"' :: (e.name.chars ++ '"' :: ',' :: v.chars)).length + 1 <
      e.name.chars.length + 1 + 2 := by
    simp
  have hv : Str.ofText 32 v.chars = v := Str.ext' (Str.chars_ofText v.noNul v.fits)
  unfold queriedQcfg
  simp only [hval, commaSeparatedElement.quoted hscan hname hchars]
  rw [cast_name (by omega), hchars, if_neg hlen, hdrop, hv, if_pos (Qcfg.hasEntry_of_mem he),
    Qcfg.withEntry_eq_mark hq.nodup he]

/-- A report is no final line. -/
theorem qcfg_report : (s.applyLine scan (reportLine name v)).qcfg =
    (queriedQcfg scan s.qcfg (reportLine name v)).getD s.qcfg := by
  have hne : reportLine name v ≠ lineOk := by
    intro h
    have := congrArg List.head? h
    exact absurd this (by simp [reportLine, qcfgPrefix, lineOk])
  have hr : ¬ s.ConfirmsReboot (reportLine name v) := fun h => hne h.1
  rw [qcfg_applyLine, if_neg hr]
  simp [qcfgAfter, assignmentOf, hne]

/-- Commands and responses agree on an entry exactly if the splitter returns something for the
value's first field. Of a field of identifiers alone it returns nothing, and the assignment is
never noticed. -/
theorem agrees_iff (hscan : ScansFields scan) (hq : q.WellNamed) (he : e ∈ q) :
    Agrees scan q e ↔ (commaSeparatedElement scan 0 e.value).chars ≠ [] ∨ e.state = .modified := by
  have hassign : ∀ s : Status, s.qcfg = q →
      s.pendingCommand = some (Request.assignQcfg e.name e.value).command →
      (s.applyLine scan lineOk).qcfg =
        if (commaSeparatedElement scan 0 e.value).chars = [] then q else q.mark e .modified := by
    rintro s rfl hp
    rw [qcfg_ok hp (chars_assignCommand _ _ ▸ List.prefix_append _ _),
      assignedQcfg_assign hscan hq he]
    split_ifs <;> rfl
  constructor
  · intro h
    by_cases hfield : (commaSeparatedElement scan 0 e.value).chars = []
    · right
      have hs := hassign { qcfg := q, pendingCommand := some _ } rfl rfl
      rw [if_pos hfield, h.assigned _ rfl rfl] at hs
      exact (Qcfg.mark_eq_self_iff he).mp hs
    · exact .inl hfield
  · intro h
    refine ⟨fun s hs hp => ?_, ?_, ?_⟩
    · rw [hassign s hs hp]
      by_cases hfield : (commaSeparatedElement scan 0 e.value).chars = []
      · rw [if_pos hfield]
        exact ((Qcfg.mark_eq_self_iff he).mpr (h.resolve_left (· hfield))).symm
      · rw [if_neg hfield]
    · rintro s rfl hp
      rw [qcfg_ok hp (chars_queryCommand ▸ List.prefix_append _ _),
        assignedQcfg_query hscan hq he]
      rfl
    · rintro s v rfl
      rw [qcfg_report, queriedQcfg_report hscan hq he]
      rfl

-- Two settings of the driver under test.
def usbnetEcm : Qcfg.Entry := { name := .ofText 32 "usbnet".toList, value := .ofText 32 "1".toList }

def smsRi : Qcfg.Entry :=
  { name := .ofText 32 "urc/ri/smsincoming".toList, value := .ofText 32 "pulse,120,1".toList }

theorem agrees_usbnetEcm : Agrees responseScanner [usbnetEcm, smsRi] usbnetEcm :=
  (agrees_iff responseScanner_scansFields ⟨by decide, by decide⟩ (by simp)).mpr (.inl (by decide))

/-- `pulse,120,1` starts with an identifier: the modem's `OK` leaves the entry as it is. -/
theorem identifier_never_modified : ¬ Agrees responseScanner [usbnetEcm, smsRi] smsRi := by
  intro h
  have := h.assigned { qcfg := [usbnetEcm, smsRi], pendingCommand := some _ } rfl rfl
  exact absurd this (by decide)

end QcfgExchange

end Allwinner.Modem
