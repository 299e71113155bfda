import Mathlib.Tactic.Common

/-!
# Painting a canvas

Stores whose value depends on their place only. Such a place may be painted any number of
times and in any order, as long as places are apart.
-/

namespace Allwinner.Library.Canvas

variable {ι β : Type _}

/-- `bs` is stored from `a` on. -/
def store (m : Nat → β) (a : Nat) (bs : List β) : Nat → β :=
  fun k => if a ≤ k then bs[k - a]?.getD (m k) else m k

section Store

variable {m : Nat → β} {a k : Nat} {bs : List β}

theorem store_of_lt (h : k < a) : store m a bs k = m k := if_neg (Nat.not_le_of_lt h)

theorem store_of_le (h : a + bs.length ≤ k) : store m a bs k = m k := by
  have hnone : bs[k - a]? = none := List.getElem?_eq_none (by omega)
  rw [store, hnone]
  split <;> rfl

theorem store_inside (h : bs[k]? = some x) : store m a bs (a + k) = x := by
  rw [store, if_pos (Nat.le_add_right ..), Nat.add_sub_cancel_left, h]
  rfl

end Store

variable (value : ι → Option (List β)) (addr : ι → Nat)

/-- One place after the other, unless one has no value. -/
def paint : List ι → (Nat → β) → Option (Nat → β)
  | [], m => some m
  | i :: l, m => (value i).bind fun bs => paint l (store m (addr i) bs)

variable {value addr} {l l' : List ι} {m m' : Nat → β} {n k : Nat}

theorem paint_append : paint value addr (l ++ l') m = (paint value addr l m).bind (paint value addr l') := by
  induction l generalizing m with
  | nil => rfl
  | cons i l ih =>
    rw [List.cons_append, paint, paint, Option.bind_assoc]
    exact congrArg _ (funext fun bs => ih)

/-- Everything is painted if every place has a value. -/
theorem exists_paint : (∃ m', paint value addr l m = some m') ↔ ∀ i ∈ l, ∃ bs, value i = some bs := by
  induction l generalizing m with
  | nil => simp [paint]
  | cons i l ih =>
    rw [paint, List.forall_mem_cons]
    cases hi : value i with
    | none => simp
    | some bs => simpa using ih

/-- What no place contains is as before. -/
theorem paint_frame (h : paint value addr l m = some m') (hlen : ∀ i ∈ l, ∀ bs ∈ value i, bs.length = n)
    (hk : ∀ i ∈ l, k < addr i ∨ addr i + n ≤ k) : m' k = m k := by
  induction l generalizing m with
  | nil => rw [Option.some.inj h]
  | cons i l ih =>
    obtain ⟨bs, hbs, hrest⟩ := Option.bind_eq_some_iff.mp h
    obtain ⟨hi, hl⟩ := List.forall_mem_cons.mp hlen
    obtain ⟨hki, hkl⟩ := List.forall_mem_cons.mp hk
    rw [ih hrest hl hkl]
    obtain hlt | hle := hki
    · exact store_of_lt hlt
    · exact store_of_le (hi bs hbs ▸ hle)

/-- Each place holds its value, whatever else was painted. -/
theorem paint_inside (h : paint value addr l m = some m') (hlen : ∀ i ∈ l, ∀ bs ∈ value i, bs.length = n)
    (hapart : ∀ i ∈ l, ∀ j ∈ l, i ≠ j → addr i + n ≤ addr j ∨ addr j + n ≤ addr i)
    (hi : i ∈ l) (hbs : value i = some bs) (hk : bs[k]? = some x) : m' (addr i + k) = x := by
  induction l generalizing m with
  | nil => cases hi
  | cons j l ih =>
    obtain ⟨cs, hcs, hrest⟩ := Option.bind_eq_some_iff.mp h
    obtain ⟨hj, hl⟩ := List.forall_mem_cons.mp hlen
    by_cases hmem : i ∈ l
    · exact ih hrest hl (fun a ha b hb => hapart a (.tail _ ha) b (.tail _ hb)) hmem
    · obtain rfl : i = j := (List.mem_cons.mp hi).resolve_right hmem
      obtain rfl : bs = cs := Option.some.inj (hbs.symm.trans hcs)
      have hlt : k < n := hj bs hbs ▸ (List.getElem?_eq_some_iff.mp hk).1
      rw [paint_frame hrest hl fun b hb => ?_, store_inside hk]
      have hne : i ≠ b := fun heq => hmem (heq ▸ hb)
      have := hapart i (.head _) b (.tail _ hb) hne
      omega

end Allwinner.Library.Canvas
