import Mathlib.Data.List.Basic
import Mathlib.Tactic.Common

/-!
# Maximal runs of a list

A run is a stretch of positions whose elements are no separators, bounded on either
side by a separator or an end of the list. `runsFrom` finds the runs from left to
right, the way a scanner does.
-/

namespace Allwinner.Library

section Runs

variable {α : Type*} (p : α → Bool)

/-- The `n` positions of `s` from `i` on are a maximal run without separators. -/
structure IsRun (s : List α) (i n : Nat) : Prop where
  pos : 0 < n
  inside : ∀ j, i ≤ j → j < i + n → ∃ c, s[j]? = some c ∧ p c = false
  before : ∀ j c, j + 1 = i → s[j]? = some c → p c = true
  behind : ∀ c, s[i + n]? = some c → p c = true

/-- How many elements at the start of a list satisfy `p`. -/
def prefixLength (s : List α) : Nat := (s.takeWhile p).length

/-- The separators at the start of a list, and the length of the run behind them. -/
def gap (s : List α) : Nat := prefixLength p s
def segment (s : List α) : Nat := prefixLength (fun c => !p c) (s.drop (gap p s))

variable {p} {s : List α} {c : α} {i j n : Nat}

theorem prefixLength_le : prefixLength p s ≤ s.length := (List.takeWhile_prefix p).length_le

theorem of_lt_prefixLength (h : j < prefixLength p s) : ∃ c, s[j]? = some c ∧ p c = true := by
  induction s generalizing j with
  | nil => cases h
  | cons a s ih =>
    cases ha : p a with
    | false => simp [prefixLength, ha] at h
    | true =>
      cases j with
      | zero => exact ⟨a, rfl, ha⟩
      | succ j => exact ih (by simpa [prefixLength, ha] using h)

theorem of_getElem?_prefixLength (h : s[prefixLength p s]? = some c) : p c = false := by
  induction s with
  | nil => cases h
  | cons a s ih =>
    cases ha : p a with
    | false =>
      obtain rfl : a = c := by simpa [prefixLength, ha] using h
      exact ha
    | true => exact ih (by simpa [prefixLength, ha] using h)

theorem gap_add_segment_le : gap p s + segment p s ≤ s.length := by
  have hrun := prefixLength_le (p := fun c => !p c) (s := s.drop (gap p s))
  have hgap := prefixLength_le (p := p) (s := s)
  rw [List.length_drop] at hrun
  unfold segment gap at *
  omega

variable (p) in
/-- The runs of `s`, with `i` as the position of its head. -/
def runsFrom (i : Nat) (s : List α) : List (Nat × Nat) :=
  if segment p s = 0 then []
  else (i + gap p s, segment p s) :: runsFrom (i + (gap p s + segment p s)) (s.drop (gap p s + segment p s))
termination_by s.length
decreasing_by
  have := gap_add_segment_le (p := p) (s := s)
  rw [List.length_drop]
  omega

variable (p) in
/-- The runs themselves, from left to right. -/
def pieces (s : List α) : List (List α) :=
  if segment p s = 0 then []
  else (s.drop (gap p s)).take (segment p s) :: pieces (s.drop (gap p s + segment p s))
termination_by s.length
decreasing_by
  have := gap_add_segment_le (p := p) (s := s)
  rw [List.length_drop]
  omega

theorem pieces_eq_nil : pieces p s = [] ↔ segment p s = 0 := by
  rw [pieces]
  split <;> simp_all

theorem pieces_eq_cons (h : pieces p s = w :: ws) : segment p s ≠ 0 ∧
    (s.drop (gap p s)).take (segment p s) = w ∧ pieces p (s.drop (gap p s + segment p s)) = ws := by
  rw [pieces] at h
  split at h
  · cases h
  · obtain ⟨hw, hws⟩ := List.cons.inj h
    exact ⟨‹_›, hw, hws⟩

/-- The position `i` is the start of the list, or not within a run. -/
def AtEdge (p : α → Bool) (s : List α) (i : Nat) : Prop := i = 0 ∨ ∀ c, s[i]? = some c → p c = true

theorem gap_isSep (hj : i ≤ j) (h : j < i + gap p (s.drop i)) (hc : s[j]? = some c) :
    p c = true := by
  unfold gap at h
  obtain ⟨c', hc', hp⟩ := of_lt_prefixLength (p := p) (s := s.drop i) (j := j - i) (by omega)
  rw [List.getElem?_drop, Nat.add_sub_cancel' hj, hc] at hc'
  cases hc'
  exact hp

theorem segment_inside (hj : i + gap p (s.drop i) ≤ j)
    (h : j < i + gap p (s.drop i) + segment p (s.drop i)) : ∃ c, s[j]? = some c ∧ p c = false := by
  unfold segment at h
  obtain ⟨c, hc, hp⟩ := of_lt_prefixLength (p := fun c => !p c)
    (s := (s.drop i).drop (gap p (s.drop i))) (j := j - (i + gap p (s.drop i))) (by omega)
  rw [List.drop_drop, List.getElem?_drop, Nat.add_sub_cancel' hj] at hc
  exact ⟨c, hc, by simpa using hp⟩

theorem segment_behind (h : s[i + gap p (s.drop i) + segment p (s.drop i)]? = some c) : p c = true := by
  have hneg := of_getElem?_prefixLength (p := fun c => !p c)
    (s := (s.drop i).drop (gap p (s.drop i))) (c := c)
    (by rwa [← segment, List.drop_drop, List.getElem?_drop])
  simpa using hneg

/-- What the scanner finds next is a run. -/
theorem isRun_next (hedge : AtEdge p s i) (h : segment p (s.drop i) ≠ 0) :
    IsRun p s (i + gap p (s.drop i)) (segment p (s.drop i)) where
  pos := Nat.pos_of_ne_zero h
  inside _ := segment_inside
  before j c hj hc := by
    by_cases hgap : i ≤ j
    · exact gap_isSep hgap (by omega) hc
    · obtain ⟨c', hc', hp⟩ := segment_inside (p := p) (s := s) (i := i) (j := i) (by omega) (by omega)
      rcases hedge with rfl | hsep
      · omega
      · rw [hsep c' hc'] at hp
        cases hp
  behind _ := segment_behind

/-- Only the end of the list stops the scanner without a run. -/
theorem segment_eq_zero (h : segment p (s.drop i) = 0) : s.length ≤ i + gap p (s.drop i) := by
  by_contra hlt
  obtain ⟨c, hc⟩ : ∃ c, s[i + gap p (s.drop i)]? = some c :=
    ⟨_, List.getElem?_eq_getElem (by omega)⟩
  have hsep : p c = true := segment_behind (i := i) (by rwa [h])
  have hnot : p c = false := of_getElem?_prefixLength (s := s.drop i)
    (by rw [← gap, List.getElem?_drop]; exact hc)
  rw [hsep] at hnot
  cases hnot

/-- A run from `i` on is the one the scanner finds, or lies behind it. -/
theorem IsRun.next_or_behind (h : IsRun p s j n) (hj : i ≤ j) : segment p (s.drop i) ≠ 0 ∧
    (j = i + gap p (s.drop i) ∧ n = segment p (s.drop i) ∨
      i + (gap p (s.drop i) + segment p (s.drop i)) ≤ j) := by
  have hpos := h.pos
  have hcontra {c : α} (hsep : p c = true) (hnot : p c = false) : False := by
    rw [hsep] at hnot
    cases hnot
  have hgap : i + gap p (s.drop i) ≤ j := by
    by_contra hlt
    obtain ⟨c, hc, hp⟩ := h.inside j (by omega) (by omega)
    exact hcontra (gap_isSep hj (by omega) hc) hp
  refine ⟨fun hzero => ?_, ?_⟩
  · obtain ⟨c, hc, _⟩ := h.inside j (by omega) (by omega)
    have := (List.getElem?_eq_some_iff.mp hc).1
    have := segment_eq_zero hzero
    omega
  · rcases Nat.eq_or_lt_of_le hgap with heq | hlt
    · refine .inl ⟨heq.symm, ?_⟩
      rcases Nat.lt_trichotomy n (segment p (s.drop i)) with hn | hn | hn
      · obtain ⟨c, hc, hp⟩ := segment_inside (p := p) (s := s) (i := i) (j := j + n) (by omega) (by omega)
        exact (hcontra (h.behind c hc) hp).elim
      · exact hn
      · obtain ⟨c, hc, hp⟩ := h.inside (j + segment p (s.drop i)) (by omega) (by omega)
        rw [← heq] at hc
        exact (hcontra (segment_behind hc) hp).elim
    · refine .inr ?_
      by_contra hin
      obtain ⟨c, hc, hp⟩ := segment_inside (p := p) (s := s) (i := i) (j := j - 1) (by omega) (by omega)
      exact hcontra (h.before (j - 1) c (by omega) hc) hp

theorem atEdge_next : AtEdge p s (i + (gap p (s.drop i) + segment p (s.drop i))) :=
  .inr fun _ hc => segment_behind (by rwa [Nat.add_assoc])

theorem mem_runsFrom_drop (hedge : AtEdge p s i) :
    (j, n) ∈ runsFrom p i (s.drop i) ↔ IsRun p s j n ∧ i ≤ j := by
  generalize hk : s.length - i = k
  induction k using Nat.strongRecOn generalizing i with
  | ind k ih =>
  rw [runsFrom]
  by_cases hrun : segment p (s.drop i) = 0
  · rw [if_pos hrun]
    refine iff_of_false (by simp) fun h => (h.1.next_or_behind h.2).1 hrun
  · have hle := gap_add_segment_le (p := p) (s := s.drop i)
    rw [List.length_drop] at hle
    rw [if_neg hrun, List.mem_cons, List.drop_drop, ih _ (by omega) atEdge_next rfl]
    constructor
    · rintro (heq | ⟨h, hj⟩)
      · cases heq
        exact ⟨isRun_next hedge hrun, by omega⟩
      · exact ⟨h, by omega⟩
    · rintro ⟨h, hj⟩
      rcases (h.next_or_behind hj).2 with ⟨rfl, rfl⟩ | hbehind
      · exact .inl rfl
      · exact .inr ⟨h, hbehind⟩

theorem mem_runsFrom : (j, n) ∈ runsFrom p 0 s ↔ IsRun p s j n := by
  have h := mem_runsFrom_drop (p := p) (s := s) (i := 0) (j := j) (n := n) (.inl rfl)
  simpa using h

/-- The runs are found from left to right, so none is found twice. -/
theorem runsFrom_pairwise :
    (runsFrom p i s).Pairwise (fun x y => x.1 + x.2 ≤ y.1) ∧ ∀ x ∈ runsFrom p i s, i ≤ x.1 := by
  fun_induction runsFrom p i s with
  | case1 i s h => simp
  | case2 i s h ih =>
    refine ⟨List.pairwise_cons.mpr ⟨fun x hx => ?_, ih.1⟩, fun x hx => ?_⟩
    · have := ih.2 x hx
      simp only
      omega
    · rcases List.mem_cons.mp hx with rfl | hx
      · simp
      · have := ih.2 x hx
        omega

end Runs

end Allwinner.Library
