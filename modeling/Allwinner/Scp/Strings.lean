import Allwinner.Scp.Effects

/-!
# Strings and the parse buffer

The loops of `scp.s` over bytes: the comparison of names, the copy into the
dictionary, and the scanner that cuts the next word out of the parse buffer.
-/

namespace Allwinner.Scp

open Library Memory
open Forth hiding ip ds rs mem io jump one two

def ascii (s : String) : List Byte := s.toList.map fun c => BitVec.ofNat 8 c.toNat

theorem and_cons_beq (b : Bool) (x y : Byte) (l k : List Byte) :
    (b && x :: l == y :: k) = (y == x && b && k == l) := by
  rw [List.cons_beq_cons, Bool.and_left_comm, Bool.and_assoc, BEq.comm (a := y), BEq.comm (a := k)]

/-- `n` bytes copied one after the other, from `s` to `d`. -/
def copied : Memory 32 → Cell → Cell → Nat → Memory 32
  | m, _, _, 0 => m
  | m, s, d, n + 1 => copied (store8 m d (m s)) (s + 1) (d + 1) n

theorem copied_eq {n : Nat} (hd : d.toNat + n ≤ 2 ^ 32)
    (h : Apart (Set.Ico d.toNat (d.toNat + n)) s n) :
    copied m s d n = storeBytes m d (bytes m s n) := by
  induction n generalizing m s d with
  | zero => rfl
  | succ n ih =>
    rw [copied, bytes, storeBytes]
    cases n with
    | zero => rfl
    | succ n =>
      have h1 : (d + 1).toNat = d.toNat + 1 := toNat_add_ofNat (n := 1) (by omega)
      have hrest : bytes (store8 m d (m s)) (s + 1) (n + 1) = bytes m (s + 1) (n + 1) := by
        refine (store8_keeps _).bytes_apart fun i hi hmem => h.tail i hi ?_
        exact ⟨hmem.1, by have := hmem.2; omega⟩
      rw [ih (by omega) fun i hi hmem => h.tail i hi ⟨?_, ?_⟩, hrest]
      · have := hmem.1
        omega
      · have := hmem.2
        omega

variable [Board]

-- ---------------------------------------------------------------------------
-- Comparison
-- ---------------------------------------------------------------------------

theorem count_does (h : Visible a) : Does .count m [a] [(m a).setWidth 32, a + 1] m := by
  refine .of_leads rfl fun ip ds rs io => ?_
  calc
    Leads ⟨.rom .count 0, a :: ds, ip :: rs, m, io, none⟩
      ⟨.rom .count 3, a :: (a + 1) :: ds, ip :: rs, m, io, none⟩ := run_leads (n := 11) rfl
    Leads _ ⟨.rom .count 4, (m a).setWidth 32 :: (a + 1) :: ds, ip :: rs, m, io, none⟩ :=
      (cat_does h).at rfl
    Leads _ _ := run_leads (n := 1) rfl

/-- One pass of `bytes_equal`. The pointers change places. -/
theorem bytes_equal_pass (h₁ : Visible a₁) (h₂ : Visible a₂) :
    Leads ⟨.rom .bytes_equal 10, flag b :: a₂ :: a₁ :: ds, rs, m, io, none⟩
      ⟨.rom .bytes_equal 24, flag (m a₂ == m a₁ && b) :: (a₁ + 1) :: (a₂ + 1) :: ds, rs, m, io,
        none⟩ := by
  rw [← flag_and, ← setWidth_beq]
  calc
    Leads ⟨.rom .bytes_equal 10, flag b :: a₂ :: a₁ :: ds, rs, m, io, none⟩
      ⟨.rom .bytes_equal 13, a₂ :: a₁ :: a₂ :: a₁ :: ds, .ram (flag b) :: rs, m, io, none⟩ :=
        run_leads (n := 6) rfl
    Leads _ ⟨.rom .bytes_equal 14, (m a₂).setWidth 32 :: a₁ :: a₂ :: a₁ :: ds, .ram (flag b) :: rs,
      m, io, none⟩ := (cat_does h₂).at rfl
    Leads _ ⟨.rom .bytes_equal 15, a₁ :: (m a₂).setWidth 32 :: a₂ :: a₁ :: ds, .ram (flag b) :: rs,
      m, io, none⟩ := run_leads (n := 1) rfl
    Leads _ ⟨.rom .bytes_equal 16, (m a₁).setWidth 32 :: (m a₂).setWidth 32 :: a₂ :: a₁ :: ds,
      .ram (flag b) :: rs, m, io, none⟩ := (cat_does h₁).at rfl
    Leads _ _ := run_leads (n := 24) rfl

theorem bytes_equal_loop (n : Nat) {c : Cell} (hc : c.toNat = n) (h₁ : Readable a₁ (n + 1))
    (h₂ : Readable a₂ (n + 1)) :
    Leads ⟨.rom .bytes_equal 10, flag b :: a₂ :: a₁ :: ds, .ram c :: ip :: rs, m, io, none⟩
      ⟨ip, flag (b && bytes m a₁ (n + 1) == bytes m a₂ (n + 1)) :: ds, rs, m, io, none⟩ := by
  induction n generalizing c a₁ a₂ b with
  | zero =>
    obtain rfl : c = 0 := BitVec.eq_of_toNat_eq hc
    have hflag : (b && bytes m a₁ 1 == bytes m a₂ 1) = (m a₂ == m a₁ && b) :=
      (and_cons_beq b _ _ [] []).trans (Bool.and_true _)
    rw [hflag]
    refine (bytes_equal_pass (h₁.head (by omega)) (h₂.head (by omega))).trans ?_
    exact (next_passed rfl).trans (run_leads (n := 5) rfl)
  | succ n ih =>
    have hne : c ≠ 0 := by rintro rfl; cases hc
    have hflag : (b && bytes m a₁ (n + 2) == bytes m a₂ (n + 2)) =
        (m a₂ == m a₁ && b && bytes m (a₂ + 1) (n + 1) == bytes m (a₁ + 1) (n + 1)) :=
      and_cons_beq ..
    rw [hflag]
    refine (bytes_equal_pass (h₁.head (by omega)) (h₂.head (by omega))).trans ?_
    refine (next_taken rfl rfl hne).trans ?_
    exact ih (by rw [toNat_pred hne]; omega) h₂.tail h₁.tail

theorem bytes_equal_does (n : Cell) (h₁ : Readable a₁ n.toNat) (h₂ : Readable a₂ n.toNat) :
    Does .bytes_equal m [n, a₂, a₁] [flag (bytes m a₁ n.toNat == bytes m a₂ n.toNat)] m := by
  refine .of_leads rfl fun ip ds rs io => ?_
  have hstart : Leads ⟨.rom .bytes_equal 0, n :: a₂ :: a₁ :: ds, ip :: rs, m, io, none⟩
      ⟨.rom .bytes_equal 4, flag (!(n == 0)) :: n :: a₂ :: a₁ :: ds, ip :: rs, m, io, none⟩ := by
    rw [← flag_xor]
    exact run_leads (n := 11) rfl
  refine hstart.trans ?_
  by_cases hn : n = 0
  · subst hn
    exact (qbranch_taken rfl rfl rfl).trans (run_leads (n := 10) rfl)
  · have hflag : flag (!(n == 0)) ≠ 0 := flag_ne_zero.mpr (by rw [beq_eq_false_iff_ne.mpr hn]; rfl)
    have hpos := pos_of_ne_zero hn
    have hpred := toNat_pred hn
    obtain ⟨k, hk⟩ : ∃ k, n.toNat = k + 1 := ⟨n.toNat - 1, by omega⟩
    rw [hk] at h₁ h₂ ⊢
    calc
      Leads _ ⟨.rom .bytes_equal 5, n :: a₂ :: a₁ :: ds, ip :: rs, m, io, none⟩ :=
        qbranch_passed rfl hflag
      Leads _ ⟨.rom .bytes_equal 6, 1 :: n :: a₂ :: a₁ :: ds, ip :: rs, m, io, none⟩ :=
        run_leads (n := 3) rfl
      Leads _ ⟨.rom .bytes_equal 7, (n - 1) :: a₂ :: a₁ :: ds, ip :: rs, m, io, none⟩ :=
        sub_does.at rfl
      Leads _ ⟨.rom .bytes_equal 10, flag true :: a₂ :: a₁ :: ds, .ram (n - 1) :: ip :: rs, m, io,
        none⟩ := run_leads (n := 5) rfl
      Leads _ _ := bytes_equal_loop k (by omega) h₁ h₂

-- ---------------------------------------------------------------------------
-- Copies
-- ---------------------------------------------------------------------------

theorem cmove_byte (hs : Visible s) (hd : Visible d ∧ fixed d = false) :
    Leads ⟨.rom .cmove 5, d :: s :: ds, rs, m, io, none⟩
      ⟨.rom .cmove 14, (d + 1) :: (s + 1) :: ds, rs, store8 m d (m s), io, none⟩ := by
  have hstore : Does .cstore m [d, (m s).setWidth 32] [] (store8 m d (m s)) := by
    have hwide : ((m s).setWidth 32).setWidth 8 = m s := by simp
    have hdoes := cstore_does (m := m) (v := (m s).setWidth 32) hd
    rwa [hwide] at hdoes
  calc
    Leads ⟨.rom .cmove 5, d :: s :: ds, rs, m, io, none⟩
      ⟨.rom .cmove 8, s :: s :: ds, .ram d :: rs, m, io, none⟩ := run_leads (n := 3) rfl
    Leads _ ⟨.rom .cmove 9, (m s).setWidth 32 :: s :: ds, .ram d :: rs, m, io, none⟩ :=
      (cat_does hs).at rfl
    Leads _ ⟨.rom .cmove 10, d :: (m s).setWidth 32 :: s :: ds, .ram d :: rs, m, io, none⟩ :=
      run_leads (n := 1) rfl
    Leads _ ⟨.rom .cmove 11, s :: ds, .ram d :: rs, store8 m d (m s), io, none⟩ := hstore.at rfl
    Leads _ _ := run_leads (n := 19) rfl

theorem cmove_loop (n : Nat) {c : Cell} (hc : c.toNat = n) (hs : Readable s (n + 1))
    (hd : Writable d (n + 1)) :
    Leads ⟨.rom .cmove 5, d :: s :: ds, .ram c :: ip :: rs, m, io, none⟩
      ⟨ip, ds, rs, copied m s d (n + 1), io, none⟩ := by
  induction n generalizing c m s d with
  | zero =>
    obtain rfl : c = 0 := BitVec.eq_of_toNat_eq hc
    refine (cmove_byte (hs.head (by omega)) (hd.head (by omega))).trans ?_
    exact (next_passed rfl).trans (run_leads (n := 6) rfl)
  | succ n ih =>
    have hne : c ≠ 0 := by rintro rfl; cases hc
    refine (cmove_byte (hs.head (by omega)) (hd.head (by omega))).trans ?_
    refine (next_taken rfl rfl hne).trans ?_
    exact ih (by rw [toNat_pred hne]; omega) hs.tail hd.tail

theorem cmove_does (n : Cell) (hs : Readable s n.toNat) (hd : Writable d n.toNat) :
    Does .cmove m [n, d, s] [] (copied m s d n.toNat) := by
  refine .of_leads rfl fun ip ds rs io => ?_
  by_cases hn : n = 0
  · subst hn
    exact (qdup_zero rfl).trans ((qbranch_taken rfl rfl rfl).trans (run_leads (n := 6) rfl))
  · have hpred := toNat_pred hn
    have hpos := pos_of_ne_zero hn
    obtain ⟨k, hk⟩ : ∃ k, n.toNat = k + 1 := ⟨n.toNat - 1, by omega⟩
    rw [hk] at hs hd ⊢
    calc
      Leads ⟨.rom .cmove 0, n :: d :: s :: ds, ip :: rs, m, io, none⟩
        ⟨.rom .cmove 1, n :: n :: d :: s :: ds, ip :: rs, m, io, none⟩ := qdup_ne rfl hn
      Leads _ ⟨.rom .cmove 2, n :: d :: s :: ds, ip :: rs, m, io, none⟩ := qbranch_passed rfl hn
      Leads _ ⟨.rom .cmove 3, 1 :: n :: d :: s :: ds, ip :: rs, m, io, none⟩ := run_leads (n := 3) rfl
      Leads _ ⟨.rom .cmove 4, (n - 1) :: d :: s :: ds, ip :: rs, m, io, none⟩ := sub_does.at rfl
      Leads _ ⟨.rom .cmove 5, d :: s :: ds, .ram (n - 1) :: ip :: rs, m, io, none⟩ :=
        run_leads (n := 1) rfl
      Leads _ _ := cmove_loop k (by omega) hs hd

end Allwinner.Scp
