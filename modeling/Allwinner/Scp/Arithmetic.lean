import Mathlib.Tactic.Ring
import Mathlib.Tactic.Linarith
import Allwinner.Scp.Effects

/-!
# Multiplication and division

`um*` and `um/mod` shift two cells to the left, round by round, and add or
subtract in between. What a round does is said of the number in both cells.
-/

namespace Allwinner.Scp

open Library Memory
open Forth hiding ip ds rs mem io jump one two

/-- The number in two cells. -/
def wide (hi lo : Cell) : Nat := hi.toNat * 2 ^ 32 + lo.toNat

/-- The carry of `um+`. -/
abbrev carry (a b : Cell) : Cell := if a + b < b then 1 else 0

theorem wide_lt (hi lo : Cell) : wide hi lo < 2 ^ 64 := by
  have := hi.isLt
  have := lo.isLt
  unfold wide
  omega

def high (n : Nat) : Cell := BitVec.ofNat 32 (n / 2 ^ 32)
def low (n : Nat) : Cell := BitVec.ofNat 32 n

theorem wide_high_low {n : Nat} (hn : n < 2 ^ 64) : wide (high n) (low n) = n := by
  simp only [wide, high, low, BitVec.toNat_ofNat]
  omega

theorem eq_of_wide {hi lo : Cell} {n : Nat} (h : wide hi lo = n) : hi = high n ∧ lo = low n := by
  have hlo := lo.isLt
  have hhi := hi.isLt
  unfold wide at h
  constructor <;> apply BitVec.eq_of_toNat_eq
  · rw [high, BitVec.toNat_ofNat]
    omega
  · rw [low, BitVec.toNat_ofNat]
    omega

theorem carry_toNat (a b : Cell) : (carry a b).toNat * 2 ^ 32 + (a + b).toNat = a.toNat + b.toNat := by
  have ha := a.isLt
  have hb := b.isLt
  unfold carry
  split <;> rename_i h <;> rw [BitVec.lt_def, BitVec.toNat_add] at h <;>
    rw [BitVec.toNat_add] <;> simp <;> omega

theorem carry_le (a b : Cell) : (carry a b).toNat ≤ 1 := by unfold carry; split <;> simp

/-- Both cells moved to the left by one bit, which leaves through the carry. -/
theorem wide_double (hi lo : Cell) :
    (carry hi hi).toNat * 2 ^ 64 + wide (carry lo lo + (hi + hi)) (lo + lo) = 2 * wide hi lo := by
  have hhi := carry_toNat hi hi
  have hlo := carry_toNat lo lo
  have hle := carry_le lo lo
  have hsum : (carry lo lo + (hi + hi)).toNat = (carry lo lo).toNat + (hi + hi).toNat := by
    have := (hi + hi).isLt
    rw [BitVec.toNat_add, Nat.mod_eq_of_lt]
    omega
  unfold wide
  rw [hsum]
  linarith

theorem wide_add {hi lo u : Cell} (h : wide hi lo + u.toNat < 2 ^ 64) :
    wide (carry lo u + hi) (lo + u) = wide hi lo + u.toNat := by
  have hlo := carry_toNat lo u
  have hle := carry_le lo u
  have hhi := hi.isLt
  unfold wide at h ⊢
  have hsum : (carry lo u + hi).toNat = (carry lo u).toNat + hi.toNat := by
    have := (lo + u).isLt
    rw [BitVec.toNat_add, Nat.mod_eq_of_lt]
    omega
  rw [hsum]
  linarith

theorem double_inc_toNat (lo : Cell) : (lo + lo + 1).toNat = (lo + lo).toNat + 1 := by
  have hlo := carry_toNat lo lo
  have := (lo + lo).isLt
  rw [BitVec.toNat_add, Nat.mod_eq_of_lt]
  · rfl
  · simp
    omega

theorem neg_toNat {u : Cell} (hu : 0 < u.toNat) : (-u).toNat = 2 ^ 32 - u.toNat := by
  have := u.isLt
  rw [BitVec.toNat_neg, Nat.mod_eq_of_lt (by omega)]

/-- Above the divisor, the difference is right although either carry may stand for it. -/
theorem sub_of_carry {c₁ c₂ r h bit d u : Nat} (hr : c₁ * 2 ^ 32 + r = 2 * h + bit)
    (hd : c₂ * 2 ^ 32 + d = r + (2 ^ 32 - u)) (hu : u < 2 ^ 32) (hh : h < u) (hbit : bit ≤ 1)
    (hc : 0 < c₁ ∨ 0 < c₂) (hc₁ : c₁ ≤ 1) (hc₂ : c₂ ≤ 1) (hlt : d < 2 ^ 32) :
    d + u = 2 * h + bit := by
  rcases hc with hc | hc <;> omega

variable [Board]

-- ---------------------------------------------------------------------------
-- Multiplication
-- ---------------------------------------------------------------------------

/-- One round of `ummul`: the cells move to the left, and the bit that leaves adds
the first factor. -/
theorem ummul_round (ds : List Cell) (rs : List Ip) (m : Memory 32) (io : Io) (u hi lo : Cell) (h : 2 * wide hi lo + u.toNat < 2 ^ 64 +
    (carry hi hi).toNat * 2 ^ 64) : ∃ hi' lo',
    Leads ⟨.rom .ummul 4, hi :: lo :: u :: ds, rs, m, io, none⟩
      ⟨.rom .ummul 20, hi' :: lo' :: u :: ds, rs, m, io, none⟩ ∧
    (carry hi hi).toNat * 2 ^ 64 + wide hi' lo' =
      2 * wide hi lo + (carry hi hi).toNat * u.toNat := by
  have hdouble := wide_double hi lo
  have hshift : Leads ⟨.rom .ummul 4, hi :: lo :: u :: ds, rs, m, io, none⟩
      ⟨.rom .ummul 14, carry hi hi :: (carry lo lo + (hi + hi)) :: (lo + lo) :: u :: ds, rs, m,
        io, none⟩ := run_leads (n := 13) rfl
  by_cases hc : carry hi hi = 0
  · exact ⟨_, _, hshift.trans (qbranch_taken rfl rfl hc), by simpa [hc] using hdouble⟩
  · have hone : (carry hi hi).toNat = 1 := by
      have := carry_le hi hi
      have := pos_of_ne_zero hc
      omega
    rw [hone] at h hdouble
    refine ⟨carry (lo + lo) u + (carry lo lo + (hi + hi)), lo + lo + u, ?_, ?_⟩
    · exact hshift.trans ((qbranch_passed rfl hc).trans (run_leads (n := 8) rfl))
    · rw [wide_add (by omega), hone]
      omega

/-- The bits of `a` are still to be taken, the topmost first, and `p` is the product so far. -/
theorem ummul_bit {n a p scale : Nat} (hwide : wide hi lo = a * scale + p) (ha : a < 2 ^ (n + 1))
    (hscale : 2 ^ n * scale = 2 ^ 63) (hp : p + 2 ^ 32 ≤ scale) : ∃ hi' lo' t a',
    Leads ⟨.rom .ummul 4, hi :: lo :: u :: ds, rs, m, io, none⟩
      ⟨.rom .ummul 20, hi' :: lo' :: u :: ds, rs, m, io, none⟩ ∧
    a = t * 2 ^ n + a' ∧ a' < 2 ^ n ∧ 2 * p + t * u.toNat + 2 ^ 32 ≤ 2 * scale ∧
    wide hi' lo' = a' * (2 * scale) + (2 * p + t * u.toNat) := by
  have hdouble := wide_double hi lo
  have hlt := wide_lt (carry lo lo + (hi + hi)) (lo + lo)
  have hu := u.isLt
  have htop : (carry hi hi).toNat * 2 ^ n ≤ a ∧ a < (carry hi hi).toNat * 2 ^ n + 2 ^ n := by
    rcases Nat.le_one_iff_eq_zero_or_eq_one.mp (carry_le hi hi) with hc | hc
    · rw [hc] at hdouble ⊢
      have : a * scale < 2 ^ n * scale := by omega
      have := Nat.lt_of_mul_lt_mul_right this
      omega
    · rw [hc] at hdouble ⊢
      refine ⟨?_, by rw [pow_succ] at ha; omega⟩
      by_contra hlow
      have : (a + 1) * scale ≤ 2 ^ n * scale := Nat.mul_le_mul_right _ (by omega)
      rw [Nat.add_mul] at this
      omega
  obtain ⟨a', ha'⟩ := Nat.exists_eq_add_of_le htop.1
  have hrest : 2 * wide hi lo =
      (carry hi hi).toNat * 2 ^ 64 + a' * (2 * scale) + 2 * p := by
    rw [hwide, ha', show (2 : Nat) ^ 64 = 2 * (2 ^ n * scale) by rw [hscale]; rfl]
    ring
  have hroom : a' * (2 * scale) + 2 * scale ≤ 2 ^ 64 := by
    have : (a' + 1) * scale ≤ 2 ^ n * scale := Nat.mul_le_mul_right _ (by omega)
    linarith
  have hadd : (carry hi hi).toNat * u.toNat ≤ u.toNat := by
    simpa using Nat.mul_le_mul_right u.toNat (carry_le hi hi)
  obtain ⟨hi', lo', hleads, hround⟩ := ummul_round ds rs m io u hi lo (by omega)
  exact ⟨hi', lo', _, a', hleads, ha', by omega, by omega, by omega⟩

theorem ummul_loop (ds : List Cell) (rs : List Ip) (m : Memory 32) (io : Io) (n : Nat) {c : Cell} (hc : c.toNat = n) {a p scale : Nat}
    (hwide : wide hi lo = a * scale + p) (ha : a < 2 ^ (n + 1)) (hscale : 2 ^ n * scale = 2 ^ 63)
    (hp : p + 2 ^ 32 ≤ scale) : ∃ hi' lo',
    Leads ⟨.rom .ummul 4, hi :: lo :: u :: ds, .ram c :: rs, m, io, none⟩
      ⟨.rom .ummul 22, hi' :: lo' :: u :: ds, rs, m, io, none⟩ ∧
    wide hi' lo' = a * u.toNat + 2 ^ (n + 1) * p := by
  induction n generalizing c hi lo a p scale with
  | zero =>
    obtain rfl : c = 0 := BitVec.eq_of_toNat_eq hc
    obtain ⟨hi₁, lo₁, t, a', hround, rfl, ha', _, hwide₁⟩ := ummul_bit hwide ha hscale hp
    obtain rfl : a' = 0 := by omega
    refine ⟨hi₁, lo₁, hround.trans ((run_leads (n := 1) rfl).trans (next_passed rfl)), ?_⟩
    rw [hwide₁]
    ring
  | succ n ih =>
    have hne : c ≠ 0 := by rintro rfl; cases hc
    obtain ⟨hi₁, lo₁, t, a', hround, rfl, ha', hp₁, hwide₁⟩ := ummul_bit hwide ha hscale hp
    obtain ⟨hi', lo', hleads, hprod⟩ := ih (c := c - 1) (by rw [toNat_pred hne]; omega) hwide₁ ha'
      (by rw [← hscale, pow_succ]; ring) hp₁
    refine ⟨hi', lo', ?_, by rw [hprod]; ring⟩
    exact hround.trans ((run_leads (n := 1) rfl).trans ((next_taken rfl rfl hne).trans hleads))

theorem ummul_does (u₁ u₂ : Cell) :
    Does .ummul m [u₂, u₁] [high (u₁.toNat * u₂.toNat), low (u₁.toNat * u₂.toNat)] m := by
  refine .of_leads rfl fun ip ds rs io => ?_
  have hlt := u₂.isLt
  obtain ⟨hi, lo, hleads, hprod⟩ := ummul_loop (u := u₁) (p := 0) ds (ip :: rs) m io 31 (c := 31) rfl
    (rfl : wide u₂ 0 = u₂.toNat * 2 ^ 32 + 0) hlt rfl (by omega)
  obtain ⟨rfl, rfl⟩ := eq_of_wide hprod
  rw [Nat.mul_zero, Nat.add_zero, Nat.mul_comm] at hleads
  calc
    Leads ⟨.rom .ummul 0, u₂ :: u₁ :: ds, ip :: rs, m, io, none⟩
      ⟨.rom .ummul 4, u₂ :: 0 :: u₁ :: ds, .ram 31 :: ip :: rs, m, io, none⟩ := run_leads (n := 8) rfl
    Leads _ _ := hleads
    Leads _ _ := run_leads (n := 8) rfl

theorem mul_does (u₁ u₂ : Cell) : Does .mul m [u₂, u₁] [u₁ * u₂] m := by
  have hlow : low (u₁.toNat * u₂.toNat) = u₁ * u₂ := by
    apply BitVec.eq_of_toNat_eq
    rw [low, BitVec.toNat_ofNat, BitVec.toNat_mul]
  rw [← hlow]
  exact .of_leads rfl fun _ _ _ _ => ((ummul_does u₁ u₂).at rfl).trans (run_leads (n := 2) rfl)

theorem ummul_multiplies (m : Memory 32) (u₁ u₂ : Cell) :
    (∃ udl udh, Delivers .ummul m [u₂, u₁] [udh, udl] m ∧
      udh.toNat * 2 ^ 32 + udl.toNat = u₁.toNat * u₂.toNat) ∧
    ∃ p, Delivers .mul m [u₂, u₁] [p] m ∧ p.toNat = u₁.toNat * u₂.toNat % 2 ^ 32 := by
  have hlt : u₁.toNat * u₂.toNat < 2 ^ 32 * 2 ^ 32 := Nat.mul_lt_mul'' u₁.isLt u₂.isLt
  exact ⟨⟨_, _, (ummul_does u₁ u₂).delivers (by decide), wide_high_low hlt⟩, _,
    (mul_does u₁ u₂).delivers (by decide), BitVec.toNat_mul ..⟩

-- ---------------------------------------------------------------------------
-- Division
-- ---------------------------------------------------------------------------

theorem negate_does : Does .negate m [a] [-a] m := by
  rw [show -a = (a ^^^ -1) + 1 by rw [xor_neg_one, BitVec.neg_eq_not_add]; rfl]
  exact .of_leads rfl fun _ _ _ _ => run_leads (n := 16) rfl

/-- One round of `umdiv_mod`: where the divisor goes into the upper cell, it is taken off
and the quotient gets a bit. -/
theorem umdiv_round (ds : List Cell) (rs : List Ip) (m : Memory 32) (io : Io) (lo : Cell)
    (h : hi.toNat < u.toNat) : ∃ hi' lo' t,
    Leads ⟨.rom .umdiv_mod 6, -u :: hi :: lo :: ds, rs, m, io, none⟩
      ⟨.rom .umdiv_mod 34, -u :: hi' :: lo' :: ds, rs, m, io, none⟩ ∧
    hi'.toNat < u.toNat ∧ t ≤ 1 ∧
    wide hi' lo' + t * (u.toNat * 2 ^ 32) = 2 * wide hi lo + t := by
  have hlo := carry_toNat lo lo
  have hdouble := wide_double hi lo
  have hsub := carry_toNat (carry lo lo + (hi + hi)) (-u)
  rw [neg_toNat (u := u) (by omega)] at hsub
  have hout := carry_le hi hi
  have hin := carry_le lo lo
  have hborrow := carry_le (carry lo lo + (hi + hi)) (-u)
  have hshifted : (carry hi hi).toNat * 2 ^ 32 + (carry lo lo + (hi + hi)).toNat =
      2 * hi.toNat + (carry lo lo).toNat := by
    rw [wide, wide] at hdouble
    linarith
  have hlt := (carry lo lo + (hi + hi) + -u).isLt
  have hu := u.isLt
  have hshift : Leads ⟨.rom .umdiv_mod 6, -u :: hi :: lo :: ds, rs, m, io, none⟩
      ⟨.rom .umdiv_mod 24, (carry (carry lo lo + (hi + hi)) (-u) ||| carry hi hi) ::
        (carry lo lo + (hi + hi) + -u) :: (carry lo lo + (hi + hi)) :: (lo + lo) :: ds,
        .ram (-u) :: rs, m, io, none⟩ := run_leads (n := 21) rfl
  by_cases hbit : carry (carry lo lo + (hi + hi)) (-u) ||| carry hi hi = 0
  · refine ⟨_, _, 0, hshift.trans ((qbranch_taken rfl rfl hbit).trans (run_leads (n := 4) rfl)), ?_⟩
    obtain ⟨hzero, hzero'⟩ := BitVec.or_eq_zero_iff.mp hbit
    rw [hzero] at hsub
    rw [hzero'] at hdouble
    generalize (carry lo lo + (hi + hi)).toNat = r at *
    generalize (carry lo lo + (hi + hi) + -u).toNat = d at *
    simp at hsub hdouble
    omega
  · refine ⟨carry lo lo + (hi + hi) + -u, lo + lo + 1, 1, ?_, ?_⟩
    · exact hshift.trans ((qbranch_passed rfl hbit).trans (run_leads (n := 15) rfl))
    · have hpos : 0 < (carry hi hi).toNat ∨ 0 < (carry (carry lo lo + (hi + hi)) (-u)).toNat := by
        by_contra hnone
        refine hbit (BitVec.or_eq_zero_iff.mpr ⟨?_, ?_⟩) <;> apply BitVec.eq_of_toNat_eq <;>
          simp <;> omega
      have hfits := sub_of_carry hshifted hsub hu h hin hpos hout hborrow hlt
      rw [wide, double_inc_toNat, wide]
      generalize (carry lo lo + (hi + hi) + -u).toNat = d at *
      omega

theorem umdiv_loop (ds : List Cell) (rs : List Ip) (m : Memory 32) (io : Io) (lo : Cell) (n : Nat)
    {c : Cell} (hc : c.toNat = n) (h : hi.toNat < u.toNat) :
    ∃ hi' lo' q,
      Leads ⟨.rom .umdiv_mod 6, -u :: hi :: lo :: ds, .ram c :: rs, m, io, none⟩
        ⟨.rom .umdiv_mod 35, -u :: hi' :: lo' :: ds, rs, m, io, none⟩ ∧
      hi'.toNat < u.toNat ∧ q < 2 ^ (n + 1) ∧
      wide hi' lo' + q * (u.toNat * 2 ^ 32) = 2 ^ (n + 1) * wide hi lo + q := by
  induction n generalizing c hi lo with
  | zero =>
    obtain rfl : c = 0 := BitVec.eq_of_toNat_eq hc
    obtain ⟨hi', lo', q, hround, hlt, hq, hwide⟩ := umdiv_round _ _ m io lo h
    exact ⟨hi', lo', q, hround.trans (next_passed rfl), hlt, by omega, hwide⟩
  | succ n ih =>
    have hne : c ≠ 0 := by rintro rfl; cases hc
    obtain ⟨hi₁, lo₁, t, hround, hlt₁, ht, hwide₁⟩ := umdiv_round _ _ m io lo h
    obtain ⟨hi', lo', q, hleads, hlt, hq, hwide⟩ := ih lo₁ (c := c - 1) (by rw [toNat_pred hne]; omega) hlt₁
    refine ⟨hi', lo', 2 ^ (n + 1) * t + q, ?_, hlt, ?_, ?_⟩
    · exact hround.trans ((next_taken rfl rfl hne).trans hleads)
    · rw [pow_succ 2 (n + 1)]
      have := Nat.mul_le_mul_left (2 ^ (n + 1)) ht
      omega
    · have hscaled := congrArg (2 ^ (n + 1) * ·) hwide₁
      simp only [Nat.mul_add] at hscaled
      rw [pow_succ 2 (n + 1)]
      linarith

theorem umdiv_mod_does (h : udh.toNat < u.toNat) (udl : Cell) :
    Does .umdiv_mod m [u, udh, udl]
      [BitVec.ofNat 32 (wide udh udl / u.toNat), BitVec.ofNat 32 (wide udh udl % u.toNat)] m := by
  refine .of_leads rfl fun ip ds rs io => ?_
  obtain ⟨r, q, k, hleads, hr, hk, hwide⟩ := umdiv_loop ds (ip :: rs) m io udl 31 (c := 31) rfl h
  have hq := q.isLt
  rw [wide, ← Nat.mul_assoc, Nat.mul_comm k] at hwide
  obtain rfl : q.toNat = k := by omega
  have hdiv : r.toNat + u.toNat * q.toNat = wide udh udl := by omega
  obtain ⟨hquot, hrem⟩ := (Nat.div_mod_unique (by omega)).mpr ⟨hdiv, hr⟩
  rw [hquot, hrem, BitVec.ofNat_toNat, BitVec.ofNat_toNat, BitVec.setWidth_eq, BitVec.setWidth_eq]
  have hult : flag (udh.ult u) ≠ 0 := flag_ne_zero.mpr (by simpa [BitVec.ult] using h)
  calc
    Leads ⟨.rom .umdiv_mod 0, u :: udh :: udl :: ds, ip :: rs, m, io, none⟩
      ⟨.rom .umdiv_mod 2, flag (udh.ult u) :: u :: udh :: udl :: ds, ip :: rs, m, io, none⟩ :=
        run_leads (n := 5) rfl
    Leads _ ⟨.rom .umdiv_mod 3, u :: udh :: udl :: ds, ip :: rs, m, io, none⟩ :=
      qbranch_passed rfl hult
    Leads _ ⟨.rom .umdiv_mod 4, -u :: udh :: udl :: ds, ip :: rs, m, io, none⟩ := negate_does.at rfl
    Leads _ ⟨.rom .umdiv_mod 6, -u :: udh :: udl :: ds, .ram 31 :: ip :: rs, m, io, none⟩ :=
      run_leads (n := 4) rfl
    Leads _ _ := hleads
    Leads _ _ := run_leads (n := 3) rfl

theorem umdiv_mod_overflow (h : u.toNat ≤ udh.toNat) : Does .umdiv_mod m [u, udh, udl] [-1, -1] m := by
  refine .of_leads rfl fun ip ds rs io => ?_
  have hult : flag (udh.ult u) = 0 := flag_eq_zero.mpr (by simpa [BitVec.ult] using h)
  calc
    Leads ⟨.rom .umdiv_mod 0, u :: udh :: udl :: ds, ip :: rs, m, io, none⟩
      ⟨.rom .umdiv_mod 2, flag (udh.ult u) :: u :: udh :: udl :: ds, ip :: rs, m, io, none⟩ :=
        run_leads (n := 5) rfl
    Leads _ ⟨.rom .umdiv_mod 38, u :: udh :: udl :: ds, ip :: rs, m, io, none⟩ :=
      qbranch_taken rfl rfl hult
    Leads _ _ := run_leads (n := 11) rfl

theorem umdiv_mod_divides (m : Memory 32) (udl udh u : Cell) :
    ∃ ur uq, Delivers .umdiv_mod m [u, udh, udl] [uq, ur] m ∧
      (udh.toNat < u.toNat →
        uq.toNat * u.toNat + ur.toNat = udh.toNat * 2 ^ 32 + udl.toNat ∧ ur.toNat < u.toNat) ∧
      (u.toNat ≤ udh.toNat → ur.toNat = 2 ^ 32 - 1 ∧ uq.toNat = 2 ^ 32 - 1) := by
  by_cases h : udh.toNat < u.toNat
  · refine ⟨_, _, (umdiv_mod_does h _).delivers (by decide), fun _ => ?_, by omega⟩
    have hquot : wide udh udl / u.toNat < 2 ^ 32 := by
      have := udl.isLt
      rw [Nat.div_lt_iff_lt_mul (by omega), wide]
      have : (udh.toNat + 1) * 2 ^ 32 ≤ u.toNat * 2 ^ 32 := Nat.mul_le_mul_right _ h
      omega
    have hrem : wide udh udl % u.toNat < u.toNat := Nat.mod_lt _ (by omega)
    have := u.isLt
    rw [BitVec.toNat_ofNat, BitVec.toNat_ofNat, Nat.mod_eq_of_lt hquot,
      Nat.mod_eq_of_lt (a := _ % _) (by omega)]
    exact ⟨Nat.div_add_mod' .., hrem⟩
  · exact ⟨_, _, (umdiv_mod_overflow (by omega)).delivers (by decide), by omega, fun _ => by decide⟩

end Allwinner.Scp
