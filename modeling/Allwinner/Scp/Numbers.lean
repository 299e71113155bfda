import Allwinner.Scp.Arithmetic
import Allwinner.Scp.Strings

/-!
# Numbers as text

`ask_number` takes the digits of a word from the left and `fmt_number` stores those of a
cell from the right, both in the radix of `base`.
-/

namespace Allwinner.Scp

open Library Memory
open Forth hiding ip ds rs mem io jump one two

-- ---------------------------------------------------------------------------
-- Numerals
-- ---------------------------------------------------------------------------

/-- What a character counts as a digit of base `b`. -/
def digit? (b : Nat) (c : Byte) : Option Nat :=
  (if 0x30 ≤ c.toNat ∧ c.toNat ≤ 0x39 then some (c.toNat - 0x30)
    else if 0x61 ≤ c.toNat ∧ c.toNat ≤ 0x7a then some (c.toNat - 0x61 + 10)
    else none).filter (· < b)

/-- The number the digits `ds` stand for, behind those that stand for `v`. -/
def denote (b v : Nat) (ds : List Nat) : Nat := ds.foldl (fun v d => v * b + d) v

/-- A number with `true` on top of it, or `false` alone. -/
def flagged (v : Option Nat) : List Cell := v.elim [0] fun v => [-1, BitVec.ofNat 32 v]

theorem flagged_inj {v w : Option Nat} (hv : ∀ x ∈ v, x < 2 ^ 32) (hw : ∀ x ∈ w, x < 2 ^ 32)
    (h : flagged v = flagged w) : v = w := by
  cases v <;> cases w <;> simp [flagged] at h hv hw ⊢
  have := congrArg BitVec.toNat h
  simp at this
  omega

/-- What a text denotes as a number that fits into a cell. -/
def number? (b : Nat) (s : List Byte) : Option Nat :=
  if s = [] then none else ((s.mapM (digit? b)).map (denote b 0)).filter (· < 2 ^ 32)

/-- A round of `ask_number`. The product is checked, the sum is not. -/
def append_digit (b r : Nat) (c : Byte) : Option Nat :=
  (digit? b c).bind fun d => if r * b < 2 ^ 32 then some ((r * b + d) % 2 ^ 32) else none

theorem append_digit_lt (h : append_digit b r c = some r') : r' < 2 ^ 32 := by
  obtain ⟨d, _, hd⟩ := Option.bind_eq_some_iff.mp h
  split at hd
  · cases hd
    exact Nat.mod_lt _ (by decide)
  · cases hd

theorem high_eq_zero {n : Nat} (hn : n < 2 ^ 64) : high n = 0 ↔ n < 2 ^ 32 := by
  rw [← BitVec.toNat_inj, high, BitVec.toNat_ofNat]
  simp
  omega

theorem ult_sub_iff {a lo hi : Cell} (h : lo.toNat ≤ hi.toNat) :
    (a - lo).ult (hi - lo) = decide (lo.toNat ≤ a.toNat ∧ a.toNat < hi.toNat) := by
  have ha := a.isLt
  have hhi := hi.isLt
  rw [BitVec.ult, decide_eq_decide, BitVec.toNat_sub, BitVec.toNat_sub]
  omega

/-- The value of a character as `ask_digit` computes it. -/
def digit_cell (c : Cell) : Cell := c - (flag (!c.ult 0x61) &&& 0x27) - 0x30

theorem digit_cell_digit {c : Byte} (h : 0x30 ≤ c.toNat) (h' : c.toNat ≤ 0x39) :
    digit_cell (c.setWidth 32) = BitVec.ofNat 32 (c.toNat - 0x30) := by
  have hult : (c.setWidth 32 : Cell).ult 0x61 = true := by simp [BitVec.ult]; omega
  apply BitVec.eq_of_toNat_eq
  rw [digit_cell, hult]
  simp [flag]
  omega

theorem digit_cell_letter {c : Byte} (h : 0x61 ≤ c.toNat) :
    digit_cell (c.setWidth 32) = BitVec.ofNat 32 (c.toNat - 0x61 + 10) := by
  have hc := c.isLt
  have hult : (c.setWidth 32 : Cell).ult 0x61 = false := by simp [BitVec.ult]; omega
  apply BitVec.eq_of_toNat_eq
  rw [digit_cell, hult]
  simp [flag]
  omega

/-- What `ask_number` makes of a text. -/
def recognised (b : Nat) (s : List Byte) : Option Nat :=
  if s = [] then none else s.foldlM (append_digit b) 0

-- ---------------------------------------------------------------------------
-- Sums that wrap around
-- ---------------------------------------------------------------------------

theorem denote_mod (b : Nat) (ds : List Nat) (v : Nat) :
    denote b (v % 2 ^ 32) ds % 2 ^ 32 = denote b v ds % 2 ^ 32 := by
  induction ds generalizing v with
  | nil => exact Nat.mod_mod _ _
  | cons d ds ih =>
    simp only [denote, List.foldl_cons] at ih ⊢
    rw [← ih, ← ih (v * b + d), Nat.add_mod, Nat.mod_mul_mod, ← Nat.add_mod]

/-- Each product fits into a cell, computed from sums that may have wrapped around. -/
def ProductsFit (b v : Nat) (ds : List Nat) : Prop :=
  ∀ k < ds.length, denote b v (ds.take k) % 2 ^ 32 * b < 2 ^ 32

theorem productsFit_mod : ProductsFit b (v % 2 ^ 32) ds ↔ ProductsFit b v ds := by
  simp only [ProductsFit, denote_mod]

theorem productsFit_cons (hr : r < 2 ^ 32) :
    ProductsFit b r (d :: ds) ↔ r * b < 2 ^ 32 ∧ ProductsFit b (r * b + d) ds := by
  constructor
  · intro h
    refine ⟨?_, fun k hk => h (k + 1) (Nat.succ_lt_succ hk)⟩
    have hfirst := h 0 (Nat.succ_pos _)
    rwa [List.take_zero, denote, List.foldl_nil, Nat.mod_eq_of_lt hr] at hfirst
  · rintro ⟨hfirst, hrest⟩ k hk
    cases k with
    | zero => rwa [List.take_zero, denote, List.foldl_nil, Nat.mod_eq_of_lt hr]
    | succ k => exact hrest k (Nat.lt_of_succ_lt_succ hk)

theorem mapM_digit?_cons {b : Nat} {c : Byte} {s : List Byte} {ds' : List Nat} :
    (c :: s).mapM (digit? b) = some ds' ↔
      ∃ d ds, digit? b c = some d ∧ s.mapM (digit? b) = some ds ∧ d :: ds = ds' := by
  simp [Option.bind_eq_some_iff]

theorem foldlM_append_digit (s : List Byte) (hr : r < 2 ^ 32) :
    s.foldlM (append_digit b) r = some v ↔
      ∃ ds, s.mapM (digit? b) = some ds ∧ ProductsFit b r ds ∧ denote b r ds % 2 ^ 32 = v := by
  induction s generalizing r with
  | nil => simp [ProductsFit, denote, Nat.mod_eq_of_lt (show r < 4294967296 from hr)]
  | cons c s ih =>
    rw [List.foldlM_cons]
    constructor
    · intro h
      obtain ⟨r', hr', hrest⟩ := Option.bind_eq_some_iff.mp h
      obtain ⟨ds, hds, hfit, hv⟩ := (ih (append_digit_lt hr')).mp hrest
      obtain ⟨d, hd, hif⟩ := Option.bind_eq_some_iff.mp hr'
      split at hif
      · cases hif
        exact ⟨d :: ds, mapM_digit?_cons.mpr ⟨d, ds, hd, hds, rfl⟩,
          (productsFit_cons hr).mpr ⟨‹_›, productsFit_mod.mp hfit⟩, by rwa [denote_mod] at hv⟩
      · cases hif
    · rintro ⟨ds', hds', hfit, hv⟩
      obtain ⟨d, ds, hd, hds, rfl⟩ := mapM_digit?_cons.mp hds'
      obtain ⟨hfirst, hrest⟩ := (productsFit_cons hr).mp hfit
      refine Option.bind_eq_some_iff.mpr ⟨(r * b + d) % 2 ^ 32, ?_, ?_⟩
      · rw [append_digit, hd, Option.bind_some, if_pos hfirst]
      · refine (ih (Nat.mod_lt _ (by decide))).mpr ⟨ds, hds, productsFit_mod.mpr hrest, ?_⟩
        rwa [denote_mod]

/-- A number that is cut to a cell is refused at one of its products. -/
def RefusedWhenWide (b : Nat) (s : List Byte) : Prop :=
  ∀ ds, s.mapM (digit? b) = some ds → 2 ^ 32 ≤ denote b 0 ds →
    ∃ k < ds.length, 2 ^ 32 ≤ denote b 0 (ds.take k) % 2 ^ 32 * b

theorem denote_append (b v : Nat) (ds ds' : List Nat) :
    denote b v (ds ++ ds') = denote b (denote b v ds) ds' := List.foldl_append

theorem le_denote (hb : 0 < b) (v : Nat) (ds : List Nat) : v ≤ denote b v ds := by
  induction ds generalizing v with
  | nil => exact Nat.le_refl _
  | cons d ds ih =>
    have hmul : v * 1 ≤ v * b := Nat.mul_le_mul_left _ hb
    exact Nat.le_trans (by omega) (ih (v * b + d))

/-- The products of a number that fits into a cell fit as well. -/
theorem productsFit_of_lt (hb : 0 < b) (h : denote b 0 ds < 2 ^ 32) : ProductsFit b 0 ds := by
  intro k hk
  have hsplit : denote b 0 ds = denote b (denote b 0 (ds.take k) * b + ds[k]) (ds.drop (k + 1)) := by
    conv_lhs => rw [← List.take_append_drop k ds, denote_append, List.drop_eq_getElem_cons hk]
    rfl
  have hle := le_denote hb (denote b 0 (ds.take k) * b + ds[k]) (ds.drop (k + 1))
  have hmod := Nat.mod_le (denote b 0 (ds.take k)) (2 ^ 32)
  have := Nat.mul_le_mul_right b hmod
  omega

theorem recognised_lt : ∀ v ∈ recognised b s, v < 2 ^ 32 := by
  intro v hv
  rw [recognised] at hv
  split at hv
  · cases hv
  · obtain ⟨_, _, _, rfl⟩ := (foldlM_append_digit s (by decide)).mp hv
    exact Nat.mod_lt _ (by decide)

theorem number?_lt : ∀ v ∈ number? b s, v < 2 ^ 32 := by
  intro v hv
  rw [number?] at hv
  split at hv
  · cases hv
  · simpa using (Option.mem_filter_iff.mp hv).2

theorem recognised_eq_none {s : List Byte} (hs : s ≠ []) {ds : List Nat}
    (hds : s.mapM (digit? b) = some ds) : recognised b s = none ↔ ¬ ProductsFit b 0 ds := by
  rw [recognised, if_neg hs]
  constructor
  · intro hnone hfit
    have := (foldlM_append_digit s (by decide)).mpr ⟨ds, hds, hfit, rfl⟩
    rw [hnone] at this
    cases this
  · intro hfit
    cases hrec : s.foldlM (append_digit b) 0 with
    | none => rfl
    | some v =>
      obtain ⟨ds', hds', hfit', _⟩ := (foldlM_append_digit s (by decide)).mp hrec
      cases hds.symm.trans hds'
      exact absurd hfit' hfit

theorem recognised_eq_number?_iff (hb : 0 < b) (s : List Byte) :
    recognised b s = number? b s ↔ RefusedWhenWide b s := by
  by_cases hs : s = []
  · subst hs
    refine iff_of_true rfl ?_
    rintro ds hds hwide
    cases hds
    cases hwide
  cases hds : s.mapM (digit? b) with
  | none =>
    refine iff_of_true ?_ fun ds h => by rw [hds] at h; cases h
    rw [recognised, number?, if_neg hs, if_neg hs, hds]
    cases hrec : s.foldlM (append_digit b) 0 with
    | none => rfl
    | some v =>
      obtain ⟨ds, h, _⟩ := (foldlM_append_digit s (by decide)).mp hrec
      rw [hds] at h
      cases h
  | some ds =>
    have hwhen : RefusedWhenWide b s ↔ (2 ^ 32 ≤ denote b 0 ds → ¬ ProductsFit b 0 ds) := by
      simp [RefusedWhenWide, hds, ProductsFit]
    rw [hwhen, number?, if_neg hs, hds, Option.map_some, Option.filter_some]
    by_cases hlt : denote b 0 ds < 2 ^ 32
    · rw [if_pos (decide_eq_true hlt), recognised, if_neg hs]
      refine iff_of_true ?_ (by omega)
      exact (foldlM_append_digit s (by decide)).mpr
        ⟨ds, hds, productsFit_of_lt hb hlt, Nat.mod_eq_of_lt hlt⟩
    · rw [if_neg (by simpa using hlt), recognised_eq_none hs hds]
      exact ⟨fun h _ => h, fun h => h (by omega)⟩

section Words

variable [Board]

theorem within_does : Does .within m [hi, lo, a] [flag ((a - lo).ult (hi - lo))] m := by
  refine .of_leads rfl fun ip ds rs io => ?_
  calc
    Leads ⟨.rom .within 0, hi :: lo :: a :: ds, ip :: rs, m, io, none⟩
      ⟨.rom .within 1, lo :: hi :: lo :: a :: ds, ip :: rs, m, io, none⟩ := run_leads (n := 1) rfl
    Leads _ ⟨.rom .within 2, (hi - lo) :: lo :: a :: ds, ip :: rs, m, io, none⟩ := sub_does.at rfl
    Leads _ ⟨.rom .within 3, lo :: a :: ds, .ram (hi - lo) :: ip :: rs, m, io, none⟩ :=
      run_leads (n := 1) rfl
    Leads _ ⟨.rom .within 4, (a - lo) :: ds, .ram (hi - lo) :: ip :: rs, m, io, none⟩ :=
      sub_does.at rfl
    Leads _ _ := run_leads (n := 3) rfl

/-- The value of a character that is a digit or a letter. -/
theorem ask_digit_offset (c : Cell) :
    Leads ⟨.rom .ask_digit 12, c :: ds, rs, m, io, none⟩
      ⟨.rom .ask_digit 21, digit_cell c :: ds, rs, m, io, none⟩ := by
  calc
    Leads ⟨.rom .ask_digit 12, c :: ds, rs, m, io, none⟩
      ⟨.rom .ask_digit 15, flag (c.ult 0x61) :: c :: ds, rs, m, io, none⟩ := run_leads (n := 5) rfl
    Leads _ ⟨.rom .ask_digit 16, flag (!c.ult 0x61) :: c :: ds, rs, m, io, none⟩ := by
      rw [← flag_xor, xor_neg_one]
      exact not_does.at rfl
    Leads _ ⟨.rom .ask_digit 18, (flag (!c.ult 0x61) &&& 0x27) :: c :: ds, rs, m, io, none⟩ :=
      run_leads (n := 4) rfl
    Leads _ ⟨.rom .ask_digit 19, (c - (flag (!c.ult 0x61) &&& 0x27)) :: ds, rs, m, io, none⟩ :=
      sub_does.at rfl
    Leads _ ⟨.rom .ask_digit 20, 0x30 :: (c - (flag (!c.ult 0x61) &&& 0x27)) :: ds, rs, m, io,
      none⟩ := run_leads (n := 3) rfl
    Leads _ _ := sub_does.at rfl

/-- The comparison with the base. -/
theorem ask_digit_bound (hv : Label.base.Var) {b d : Nat} (hd : d < 2 ^ 32)
    (hb : (load32 m Label.base.storage).toNat = b) :
    Leads ⟨.rom .ask_digit 21, BitVec.ofNat 32 d :: ds, ip :: rs, m, io, none⟩
      ⟨ip, flagged ((some d).filter (· < b)) ++ ds, rs, m, io, none⟩ := by
  have hult : (BitVec.ofNat 32 d).ult (load32 m Label.base.storage) = decide (d < b) := by
    rw [BitVec.ult, hb, BitVec.toNat_ofNat, Nat.mod_eq_of_lt hd]
  have hcompare : Leads ⟨.rom .ask_digit 21, BitVec.ofNat 32 d :: ds, ip :: rs, m, io, none⟩
      ⟨.rom .ask_digit 25, flag (decide (d < b)) :: BitVec.ofNat 32 d :: ds, ip :: rs, m, io,
        none⟩ := by
    rw [← hult]
    calc
      Leads ⟨.rom .ask_digit 21, BitVec.ofNat 32 d :: ds, ip :: rs, m, io, none⟩
        ⟨.rom .ask_digit 22, BitVec.ofNat 32 d :: BitVec.ofNat 32 d :: ds, ip :: rs, m, io, none⟩ :=
          run_leads (n := 1) rfl
      Leads _ _ := hv.fetch rfl rfl
      Leads _ _ := run_leads (n := 1) rfl
  refine hcompare.trans ?_
  by_cases h : d < b
  · simp only [Option.filter, h, decide_true, if_true]
    exact (qbranch_passed rfl (flag_ne_zero.mpr rfl)).trans (run_leads (n := 4) rfl)
  · simp only [Option.filter, h, decide_false, Bool.false_eq_true, if_false]
    exact (qbranch_taken rfl rfl (flag_eq_zero.mpr rfl)).trans (run_leads (n := 6) rfl)

theorem ask_digit_does (hv : Label.base.Var) {b : Nat} (hb : (load32 m Label.base.storage).toNat = b)
    (c : Byte) : Does .ask_digit m [c.setWidth 32]
      (flagged (digit? b c)) m := by
  refine .of_leads rfl fun ip ds rs io => ?_
  have hc := c.isLt
  have hwide : (c.setWidth 32 : Cell).toNat = c.toNat := by simp; omega
  have hkind : Leads ⟨.rom .ask_digit 0, c.setWidth 32 :: ds, ip :: rs, m, io, none⟩
      ⟨.rom .ask_digit 11, flag (decide (0x30 ≤ c.toNat ∧ c.toNat < 0x3a) ||
        decide (0x61 ≤ c.toNat ∧ c.toNat < 0x7b)) :: c.setWidth 32 :: ds, ip :: rs, m, io, none⟩ := by
    have hdigit := ult_sub_iff (a := c.setWidth 32)
      (by decide : (0x30 : Cell).toNat ≤ (0x39 + 1 : Cell).toNat)
    have hletter := ult_sub_iff (a := c.setWidth 32)
      (by decide : (0x61 : Cell).toNat ≤ (0x7a + 1 : Cell).toNat)
    rw [hwide] at hdigit hletter
    rw [← flag_or]
    calc
      Leads ⟨.rom .ask_digit 0, c.setWidth 32 :: ds, ip :: rs, m, io, none⟩
        ⟨.rom .ask_digit 4, (0x39 + 1) :: 0x30 :: c.setWidth 32 :: c.setWidth 32 :: ds, ip :: rs, m,
          io, none⟩ := run_leads (n := 16) rfl
      Leads _ ⟨.rom .ask_digit 5, _ :: c.setWidth 32 :: ds, ip :: rs, m, io, none⟩ :=
        within_does.at rfl
      Leads _ ⟨.rom .ask_digit 9, (0x7a + 1) :: 0x61 :: c.setWidth 32 :: _ :: c.setWidth 32 :: ds,
        ip :: rs, m, io, none⟩ := run_leads (n := 16) rfl
      Leads _ ⟨.rom .ask_digit 10, _ :: _ :: c.setWidth 32 :: ds, ip :: rs, m, io, none⟩ :=
        within_does.at rfl
      Leads _ _ := by
        rw [hdigit, hletter]
        exact run_leads (n := 1) rfl
  refine hkind.trans ?_
  unfold digit?
  by_cases hdigit : 0x30 ≤ c.toNat ∧ c.toNat ≤ 0x39
  · rw [if_pos hdigit]
    have hflag : flag (decide (0x30 ≤ c.toNat ∧ c.toNat < 0x3a) ||
        decide (0x61 ≤ c.toNat ∧ c.toNat < 0x7b)) ≠ 0 := flag_ne_zero.mpr (by simp; omega)
    refine (qbranch_passed rfl hflag).trans ((ask_digit_offset _).trans ?_)
    rw [digit_cell_digit hdigit.1 hdigit.2]
    exact ask_digit_bound hv (by omega) hb
  · rw [if_neg hdigit]
    by_cases hletter : 0x61 ≤ c.toNat ∧ c.toNat ≤ 0x7a
    · rw [if_pos hletter]
      have hflag : flag (decide (0x30 ≤ c.toNat ∧ c.toNat < 0x3a) ||
          decide (0x61 ≤ c.toNat ∧ c.toNat < 0x7b)) ≠ 0 := flag_ne_zero.mpr (by simp; omega)
      refine (qbranch_passed rfl hflag).trans ((ask_digit_offset _).trans ?_)
      rw [digit_cell_letter hletter.1]
      exact ask_digit_bound hv (by omega) hb
    · rw [if_neg hletter]
      have hflag : flag (decide (0x30 ≤ c.toNat ∧ c.toNat < 0x3a) ||
          decide (0x61 ≤ c.toNat ∧ c.toNat < 0x7b)) = 0 := flag_eq_zero.mpr (by simp; omega)
      exact (qbranch_taken rfl rfl hflag).trans (run_leads (n := 6) rfl)

/-- One round of `ask_number`, up to the test whether the character was a digit. -/
theorem ask_number_char (hv : Label.base.Var) {b : Nat} (hb : (load32 m Label.base.storage).toNat = b)
    (ha : Visible a) :
    Leads ⟨.rom .ask_number 6, r :: a :: ds, rs, m, io, none⟩
      ⟨.rom .ask_number 11, flagged (digit? b (m a)) ++ a :: r :: ds, rs, m, io, none⟩ :=
  calc
    Leads ⟨.rom .ask_number 6, r :: a :: ds, rs, m, io, none⟩
      ⟨.rom .ask_number 9, a :: a :: r :: ds, rs, m, io, none⟩ := run_leads (n := 3) rfl
    Leads _ ⟨.rom .ask_number 10, (m a).setWidth 32 :: a :: r :: ds, rs, m, io, none⟩ :=
      (cat_does ha).at rfl
    Leads _ _ := (ask_digit_does hv hb _).at rfl

/-- The product of the result and the base, and whether it fits into a cell. -/
theorem ask_number_product (hv : Label.base.Var) {b : Nat}
    (hb : (load32 m Label.base.storage).toNat = b) {n : Nat} (hr : n < 2 ^ 32) :
    Leads ⟨.rom .ask_number 11, -1 :: d :: a :: BitVec.ofNat 32 n :: ds, rs, m, io, none⟩
      ⟨.rom .ask_number 20, flag (decide (n * b < 2 ^ 32)) :: BitVec.ofNat 32 (n * b) :: d :: a :: ds,
        rs, m, io, none⟩ := by
  have hlt : n * b < 2 ^ 32 * 2 ^ 32 := Nat.mul_lt_mul'' hr (hb ▸ BitVec.isLt _)
  have hflag : flag (decide (n * b < 2 ^ 32)) = flag (high (n * b) == 0) :=
    congrArg flag (by rw [Bool.eq_iff_iff, decide_eq_true_eq, beq_iff_eq, high_eq_zero hlt])
  have hmul := ummul_does (m := m) (BitVec.ofNat 32 n) (load32 m Label.base.storage)
  rw [hb, BitVec.toNat_ofNat, Nat.mod_eq_of_lt hr] at hmul
  rw [hflag]
  calc
    Leads ⟨.rom .ask_number 11, -1 :: d :: a :: BitVec.ofNat 32 n :: ds, rs, m, io, none⟩
      ⟨.rom .ask_number 12, -1 :: -1 :: d :: a :: BitVec.ofNat 32 n :: ds, rs, m, io, none⟩ :=
        qdup_ne rfl (by decide)
    Leads _ ⟨.rom .ask_number 13, -1 :: d :: a :: BitVec.ofNat 32 n :: ds, rs, m, io, none⟩ :=
      qbranch_passed rfl (by decide)
    Leads _ ⟨.rom .ask_number 15, BitVec.ofNat 32 n :: d :: a :: ds, rs, m, io, none⟩ :=
      run_leads (n := 7) rfl
    Leads _ ⟨.rom .ask_number 17, _ :: BitVec.ofNat 32 n :: d :: a :: ds, rs, m, io, none⟩ :=
      hv.fetch rfl rfl
    Leads _ ⟨.rom .ask_number 18, high (n * b) :: low (n * b) :: d :: a :: ds, rs, m, io, none⟩ :=
      hmul.at rfl
    Leads _ _ := run_leads (n := 4) rfl

theorem ask_number_round (hv : Label.base.Var) {b : Nat}
    (hb : (load32 m Label.base.storage).toNat = b) {r : Nat} (hr : r < 2 ^ 32)
    (ha : Visible a) :
    Leads ⟨.rom .ask_number 6, BitVec.ofNat 32 r :: a :: ds, .ram c :: ip :: rs, m, io, none⟩
      ((append_digit b r (m a)).elim ⟨ip, 0 :: ds, rs, m, io, none⟩ fun r' =>
        ⟨.rom .ask_number 25, BitVec.ofNat 32 r' :: (a + 1) :: ds, .ram c :: ip :: rs, m, io,
          none⟩) := by
  refine (ask_number_char hv hb ha).trans ?_
  unfold append_digit
  cases digit? b (m a) with
  | none => exact (qdup_zero rfl).trans ((qbranch_taken rfl rfl rfl).trans (run_leads (n := 12) rfl))
  | some d =>
    refine (ask_number_product hv hb hr).trans ?_
    rw [Option.bind_some]
    by_cases hfits : r * b < 2 ^ 32
    · have hsum : BitVec.ofNat 32 ((r * b + d) % 2 ^ 32) =
          BitVec.ofNat 32 d + BitVec.ofNat 32 (r * b) := by
        rw [← BitVec.ofNat_add, Nat.add_comm]
        exact BitVec.eq_of_toNat_eq (by simp)
      rw [decide_eq_true hfits, if_pos hfits, Option.elim_some, hsum]
      refine (qbranch_passed rfl (flag_ne_zero.mpr rfl)).trans ?_
      exact run_leads (n := 15) rfl
    · rw [decide_eq_false hfits, if_neg hfits]
      exact (qbranch_taken rfl rfl rfl).trans (run_leads (n := 14) rfl)

theorem ask_number_loop (hv : Label.base.Var) {b : Nat}
    (hb : (load32 m Label.base.storage).toNat = b) (n : Nat) {c : Cell} (hc : c.toNat = n) {r : Nat}
    (hr : r < 2 ^ 32) (ha : Readable a (n + 1)) :
    Leads ⟨.rom .ask_number 6, BitVec.ofNat 32 r :: a :: ds, .ram c :: ip :: rs, m, io, none⟩
      ⟨ip, flagged ((bytes m a (n + 1)).foldlM (append_digit b) r) ++ ds, rs, m, io, none⟩ := by
  induction n generalizing c r a with
  | zero =>
    obtain rfl : c = 0 := BitVec.eq_of_toNat_eq hc
    refine (ask_number_round hv hb hr (ha.head (by omega))).trans ?_
    rw [bytes, List.foldlM_cons]
    cases append_digit b r (m a) with
    | none => exact .refl
    | some r' => exact (next_passed rfl).trans (run_leads (n := 6) rfl)
  | succ n ih =>
    have hne : c ≠ 0 := by rintro rfl; cases hc
    refine (ask_number_round hv hb hr (ha.head (by omega))).trans ?_
    rw [bytes, List.foldlM_cons]
    cases hround : append_digit b r (m a) with
    | none => exact .refl
    | some r' =>
      refine (next_taken rfl rfl hne).trans ?_
      exact ih (by rw [toNat_pred hne]; omega) (append_digit_lt hround) ha.tail

theorem ask_number_does (hv : Label.base.Var) {b : Nat}
    (hb : (load32 m Label.base.storage).toNat = b) (n : Cell) (ha : Readable a n.toNat) :
    Does .ask_number m [n, a]
      (flagged (recognised b (bytes m a n.toNat))) m := by
  refine .of_leads rfl fun ip ds rs io => ?_
  by_cases hn : n = 0
  · subst hn
    exact (qdup_zero rfl).trans ((qbranch_taken rfl rfl rfl).trans (run_leads (n := 6) rfl))
  · have hpred := toNat_pred hn
    have hpos := pos_of_ne_zero hn
    obtain ⟨k, hk⟩ : ∃ k, n.toNat = k + 1 := ⟨n.toNat - 1, by omega⟩
    rw [hk] at ha ⊢
    rw [recognised, if_neg (by rw [bytes]; exact List.cons_ne_nil _ _)]
    calc
      Leads ⟨.rom .ask_number 0, n :: a :: ds, ip :: rs, m, io, none⟩
        ⟨.rom .ask_number 1, n :: n :: a :: ds, ip :: rs, m, io, none⟩ := qdup_ne rfl hn
      Leads _ ⟨.rom .ask_number 2, n :: a :: ds, ip :: rs, m, io, none⟩ := qbranch_passed rfl hn
      Leads _ ⟨.rom .ask_number 3, 1 :: n :: a :: ds, ip :: rs, m, io, none⟩ := run_leads (n := 3) rfl
      Leads _ ⟨.rom .ask_number 4, (n - 1) :: a :: ds, ip :: rs, m, io, none⟩ := sub_does.at rfl
      Leads _ ⟨.rom .ask_number 6, 0 :: a :: ds, .ram (n - 1) :: ip :: rs, m, io, none⟩ :=
        run_leads (n := 4) rfl
      Leads _ _ := ask_number_loop hv hb k (by omega) (by decide) ha

/-- For every text, `ask_number` takes its two arguments. It leaves what the text denotes
exactly if a number too wide for a cell is refused at one of its products. -/
theorem ask_number_exact_iff [Sram] (m : Memory 32) {b : Nat} (hb : 2 ≤ b)
    (hbase : (load32 m Label.base.storage).toNat = b) (a n : Cell) (ha : Readable a n.toNat) :
    (∃ v, Does .ask_number m [n, a] (flagged v) m) ∧
      (Does .ask_number m [n, a] (flagged (number? b (bytes m a n.toNat))) m ↔
        RefusedWhenWide b (bytes m a n.toNat)) := by
  have hdoes := ask_number_does (.of_isVar rfl) hbase n ha
  refine ⟨⟨_, hdoes⟩, ?_⟩
  rw [← recognised_eq_number?_iff (by omega)]
  constructor
  · intro h
    exact flagged_inj recognised_lt number?_lt (hdoes.unique h).1
  · intro h
    rwa [h] at hdoes

end Words

namespace Literal

local instance : Board := .flat
local instance : Sram := .flat

/-- `2 ^ 32` in decimal, at the start of the input buffer. -/
def memory : Memory 32 :=
  storeBytes (store32 (fun _ => 0) Label.base.storage 10) 0x13c04 (ascii "4294967296")

theorem bytes_memory : bytes memory 0x13c04 10 = ascii "4294967296" := by decide +kernel

theorem base_memory : (load32 memory Label.base.storage).toNat = 10 := by decide +kernel

/-- The sum of the last digit wraps around, and zero is taken for the number. -/
theorem wide_number_accepted : Does .ask_number memory [10, 0x13c04] [-1, 0] memory ∧
    ¬ Does .ask_number memory [10, 0x13c04] (flagged (number? 10 (bytes memory 0x13c04 10))) memory := by
  have hdoes := ask_number_does (.of_isVar rfl) base_memory (a := 0x13c04) 10
    (Span.behind (by decide) (by decide)).readable
  have hzero : flagged (recognised 10 (bytes memory 0x13c04 10)) = [-1, 0] := by
    rw [bytes_memory]
    decide +kernel
  have hnone : flagged (number? 10 (bytes memory 0x13c04 10)) = [0] := by
    rw [bytes_memory]
    decide +kernel
  rw [show (10 : Cell).toNat = 10 from rfl, hzero] at hdoes
  refine ⟨hdoes, fun h => ?_⟩
  rw [hnone] at h
  cases (hdoes.unique h).1

/-- The same text without its last digit. -/
theorem number_accepted : Does .ask_number memory [9, 0x13c04] [-1, 429496729] memory := by
  have htext : bytes memory 0x13c04 (9 : Cell).toNat = ascii "429496729" := by decide +kernel
  have hnumber : flagged (number? 10 (ascii "429496729")) = [-1, 429496729] := by decide +kernel
  have h := (ask_number_exact_iff memory (by decide) base_memory 0x13c04 9
    (Span.behind (by decide) (by decide)).readable).2
  rw [htext, hnumber] at h
  refine h.mpr fun ds hds hwide => absurd hwide ?_
  obtain rfl : [4, 2, 9, 4, 9, 6, 7, 2, 9] = ds :=
    Option.some.inj (.trans (by decide +kernel) hds)
  decide

end Literal

end Allwinner.Scp
