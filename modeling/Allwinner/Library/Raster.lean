import Mathlib.Algebra.Order.Group.Nat
import Mathlib.Tactic.Common

/-!
# Row-major pixels

A picture of some width and height as one array, row by row. Pixel `(x, y)` has index
`y * width + x`, and each index below `width * height` is that of one pixel.
-/

namespace Allwinner.Library.Raster

variable {width height x y x' y' k : Nat}

theorem index_lt (hx : x < width) (hy : y < height) : y * width + x < width * height :=
  calc y * width + x < y * width + width := Nat.add_lt_add_left hx _
    _ = width * (y + 1) := by rw [Nat.mul_comm, Nat.mul_succ]
    _ ≤ width * height := Nat.mul_le_mul_left _ hy

theorem exists_index (hk : k < width * height) : ∃ x < width, ∃ y < height, k = y * width + x := by
  have hwidth : 0 < width := Nat.pos_of_ne_zero fun h => by simp [h] at hk
  exact ⟨k % width, Nat.mod_lt _ hwidth, k / width, Nat.div_lt_of_lt_mul hk, (Nat.div_add_mod' k width).symm⟩

theorem forall_index {P : Nat → Prop} :
    (∀ y < height, ∀ x < width, P (y * width + x)) ↔ ∀ k < width * height, P k := by
  refine ⟨fun h k hk => ?_, fun h y hy x hx => h _ (index_lt hx hy)⟩
  obtain ⟨x, hx, y, hy, rfl⟩ := exists_index hk
  exact h y hy x hx

theorem index_div (hx : x < width) : (y * width + x) / width = y := by
  rw [Nat.mul_comm, Nat.mul_add_div (Nat.zero_lt_of_lt hx), Nat.div_eq_of_lt hx, Nat.add_zero]

theorem index_mod (hx : x < width) : (y * width + x) % width = x := by
  rw [Nat.mul_comm, Nat.mul_add_mod, Nat.mod_eq_of_lt hx]

/-- Rows of one length, one after the other. -/
theorem getElem?_append_row {row rest : List α} (hrow : row.length = width) (hx : x < width) :
    (row ++ rest)[y * width + x]? = if y = 0 then row[x]? else rest[(y - 1) * width + x]? := by
  cases y with
  | zero => simp [List.getElem?_append_left (hrow ▸ hx)]
  | succ y =>
    have hindex : (y + 1) * width + x - row.length = y * width + x := by
      rw [hrow, Nat.succ_mul]
      omega
    rw [if_neg (Nat.succ_ne_zero y), Nat.add_sub_cancel, List.getElem?_append_right, hindex]
    rw [hrow, Nat.succ_mul]
    omega

end Allwinner.Library.Raster
