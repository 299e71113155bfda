import Mathlib.Algebra.GroupWithZero.Nat
import Mathlib.Tactic.Common

/-!
# Fields of bits

A field of `w` bits from bit `s` on in a word of any length. It is written through a mask, and
what lies outside of it stays. Fields that do not overlap are written in any order.
-/

namespace Allwinner.Library

namespace BitFields

variable {n : Nat}

/-- The `w` lowest bits. A field as long as the word has a mask of ones only. -/
def mask (n w : Nat) : BitVec n := (1 : BitVec n) <<< w - 1

def insert (x : BitVec n) (s w : Nat) (v : BitVec n) : BitVec n :=
  (x &&& ~~~(mask n w <<< s)) ||| (v <<< s &&& mask n w <<< s)

def extract (x : BitVec n) (s w : Nat) : BitVec n := (x &&& mask n w <<< s) >>> s

/-- The fields have no bit in common. -/
def Disjoint (s w s' w' : Nat) : Prop := s + w ≤ s' ∨ s' + w' ≤ s

theorem mask_eq (n w : Nat) : mask n w = BitVec.ofNat n (2 ^ w - 1) := by
  have hone : (1 : BitVec n) <<< w = BitVec.ofNat n (2 ^ w - 1) + 1 := by
    apply BitVec.eq_of_toNat_eq
    have hpos := Nat.two_pow_pos w
    simp [Nat.shiftLeft_eq, Nat.sub_add_cancel hpos]
  rw [mask, hone, BitVec.add_sub_cancel]

theorem getLsbD_mask (i : Nat) : (mask n w).getLsbD i = (decide (i < n) && decide (i < w)) := by
  rw [mask_eq, BitVec.getLsbD_ofNat, Nat.testBit_two_pow_sub_one]

theorem getLsbD_mask_shiftLeft (h : s + w ≤ n) (i : Nat) :
    (mask n w <<< s).getLsbD i = decide (s ≤ i ∧ i < s + w) := by
  rw [BitVec.getLsbD_shiftLeft, getLsbD_mask, Bool.eq_iff_iff]
  simp
  omega

theorem getLsbD_insert (x v : BitVec n) (h : s + w ≤ n) {i : Nat} (hi : i < n) :
    (insert x s w v).getLsbD i = if s ≤ i ∧ i < s + w then v.getLsbD (i - s) else x.getLsbD i := by
  rw [insert, BitVec.getLsbD_or, BitVec.getLsbD_and, BitVec.getLsbD_and, BitVec.getLsbD_not,
    getLsbD_mask_shiftLeft h, BitVec.getLsbD_shiftLeft]
  split
  · have hs : ¬ i < s := by omega
    simp [*]
  · simp [*]

theorem getLsbD_extract (x : BitVec n) (h : s + w ≤ n) (i : Nat) :
    (extract x s w).getLsbD i = (x.getLsbD (s + i) && decide (i < w)) := by
  rw [extract, BitVec.getLsbD_ushiftRight, BitVec.getLsbD_and, getLsbD_mask_shiftLeft h]
  simp

/-- What was written is read, cut to the width of the field. -/
theorem extract_insert (x v : BitVec n) (h : s + w ≤ n) :
    extract (insert x s w v) s w = BitVec.ofNat n (v.toNat % 2 ^ w) := by
  apply BitVec.eq_of_getLsbD_eq
  intro i hi
  rw [getLsbD_extract _ h, BitVec.getLsbD_ofNat, Nat.testBit_mod_two_pow, BitVec.testBit_toNat]
  by_cases hw : i < w
  · rw [getLsbD_insert _ _ h (by omega), if_pos (by omega), Nat.add_sub_cancel_left]
    simp [hw, hi]
  · simp [hw]

/-- What lies outside of the field stays. -/
theorem extract_insert_of_disjoint (x v : BitVec n) (h : s + w ≤ n) (h' : s' + w' ≤ n)
    (hdisjoint : Disjoint s w s' w') : extract (insert x s w v) s' w' = extract x s' w' := by
  apply BitVec.eq_of_getLsbD_eq
  intro i hi
  rw [getLsbD_extract _ h', getLsbD_extract _ h']
  by_cases hw : i < w'
  · have hout : ¬ (s ≤ s' + i ∧ s' + i < s + w) := by
      unfold Disjoint at hdisjoint
      omega
    rw [getLsbD_insert _ _ h (by omega), if_neg hout]
  · simp [hw]

theorem insert_comm (x v v' : BitVec n) (h : s + w ≤ n) (h' : s' + w' ≤ n)
    (hdisjoint : Disjoint s w s' w') :
    insert (insert x s w v) s' w' v' = insert (insert x s' w' v') s w v := by
  apply BitVec.eq_of_getLsbD_eq
  intro i hi
  rw [getLsbD_insert _ _ h' hi, getLsbD_insert _ _ h hi, getLsbD_insert _ _ h hi,
    getLsbD_insert _ _ h' hi]
  have hone : (s ≤ i ∧ i < s + w) → ¬ (s' ≤ i ∧ i < s' + w') := by
    unfold Disjoint at hdisjoint
    omega
  split
  · rw [if_neg fun hs => hone hs ‹_›]
  · rfl

end BitFields

end Allwinner.Library
