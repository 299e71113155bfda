import Allwinner.Library.Raster

/-!
# The rotation of camera pictures

The picture of the camera is rotated counter-clockwise while it is copied: the columns of
the source, from the last to the first, become the rows of the picture. There are two
such loops, one of them for gray pictures.
-/

namespace Allwinner.Camera

open Library

/-- A pixel written: the index it was read from, and its value. -/
abbrev Write (β : Type) := Nat × β

section Loops

variable {α β : Type} (f : α → β) (src : Nat → α) (width : BitVec 32)

/-- The inner loop, for `n` more rows of the source. -/
def rotateColumn (wOffset : BitVec 32) : (n : Nat) → (hOffset : BitVec 32) → List (Write β)
  | 0, _ => []
  | n + 1, hOffset =>
    let source := wOffset.toNat + hOffset.toNat
    (source, f (src source)) :: rotateColumn wOffset n (hOffset + width)

/-- The outer loop, for `n` more columns of the source. -/
def rotateColumns (height : BitVec 32) : (n : Nat) → (wOffset : BitVec 32) → List (Write β)
  | 0, _ => []
  | n + 1, wOffset =>
    rotateColumn f src width wOffset height.toNat 0 ++ rotateColumns height n (wOffset - 1)

/-- "w_offset selects source column and h_offset source row, copy ccw." -/
def rotate (height : BitVec 32) : List (Write β) := rotateColumns f src width height width.toNat width

end Loops

def abgr (v : BitVec 8) : BitVec 32 :=
  0xff000000#32 ||| v.setWidth 32 ||| (v.setWidth 32 <<< 8) ||| (v.setWidth 32 <<< 16)

/-- `_rotate_y_as_gray`. -/
def rotateYAsGray (y : Nat → BitVec 8) (width height : BitVec 32) : List (Write (BitVec 32)) :=
  rotate abgr y width height

/-- The rotation in `_gui_show`. -/
def rotatePixels (s : Nat → BitVec 32) (width height : BitVec 32) : List (Write (BitVec 32)) :=
  rotate id s width height

/-- The writes rotate the picture counter-clockwise. -/
structure ExactRotation (f : α → β) (src : Nat → α) (width height : Nat) (writes : List (Write β)) :
    Prop where
  pixel : ∀ w < width, ∀ h < height, writes[w * height + h]? =
    some (h * width + (width - 1 - w), f (src (h * width + (width - 1 - w))))
  once : ∀ column < width, ∀ row < height, writes.countP (·.1 = row * width + column) = 1
  inside : ∀ x ∈ writes, x.1 < width * height

example : ExactRotation id (fun i => i) 2 2 [(1, 1), (3, 3), (0, 0), (2, 2)] :=
  ⟨by decide, by decide, by decide⟩

-- ---------------------------------------------------------------------------
-- What the loops write
-- ---------------------------------------------------------------------------

section Laws

variable {α β : Type} {f : α → β} {src : Nat → α} {width height wOffset hOffset : BitVec 32} {n w h : Nat}

theorem length_rotateColumn : (rotateColumn f src width wOffset n hOffset).length = n := by
  induction n generalizing hOffset with
  | zero => rfl
  | succ n ih => simp [rotateColumn, ih]

theorem getElem?_rotateColumn (hh : h < n) : (rotateColumn f src width wOffset n hOffset)[h]? =
    let source := wOffset.toNat + (hOffset + BitVec.ofNat 32 h * width).toNat
    some (source, f (src source)) := by
  induction n generalizing h hOffset with
  | zero => exact absurd hh (Nat.not_lt_zero h)
  | succ n ih =>
    cases h with
    | zero => simp [rotateColumn]
    | succ h =>
      have hoffset : hOffset + width + BitVec.ofNat 32 h * width =
          hOffset + BitVec.ofNat 32 (h + 1) * width := by
        rw [BitVec.ofNat_add, BitVec.add_mul, BitVec.add_assoc, BitVec.add_comm width]
        simp
      rw [rotateColumn, List.getElem?_cons_succ, ih (Nat.lt_of_succ_lt_succ hh), hoffset]

theorem getElem?_rotateColumns (hw : w < n) (hh : h < height.toNat) :
    (rotateColumns f src width height n wOffset)[w * height.toNat + h]? =
      let source := (wOffset - BitVec.ofNat 32 w).toNat + (BitVec.ofNat 32 h * width).toNat
      some (source, f (src source)) := by
  induction n generalizing w wOffset with
  | zero => exact absurd hw (Nat.not_lt_zero w)
  | succ n ih =>
    rw [rotateColumns, Raster.getElem?_append_row length_rotateColumn hh]
    cases w with
    | zero => simp [getElem?_rotateColumn hh]
    | succ w =>
      have hoffset : wOffset - 1 - BitVec.ofNat 32 w = wOffset - BitVec.ofNat 32 (w + 1) := by
        rw [BitVec.ofNat_add, BitVec.sub_sub, BitVec.add_comm]
        rfl
      rw [if_neg (Nat.succ_ne_zero w), Nat.add_sub_cancel, ih (Nat.lt_of_succ_lt_succ hw), hoffset]

theorem length_rotateColumns :
    (rotateColumns f src width height n wOffset).length = n * height.toNat := by
  induction n generalizing wOffset with
  | zero => simp [rotateColumns]
  | succ n ih => rw [rotateColumns, List.length_append, length_rotateColumn, ih, Nat.succ_mul, Nat.add_comm]

theorem length_rotate : (rotate f src width height).length = width.toNat * height.toNat :=
  length_rotateColumns

/-- The pixel is read one column to the right of where it should be. -/
theorem getElem?_rotate (hw : w < width.toNat) (hh : h < height.toNat) :
    (rotate f src width height)[w * height.toNat + h]? =
      let source := width.toNat - w + h * width.toNat % 2 ^ 32
      some (source, f (src source)) := by
  have hwidth := width.isLt
  have hcolumn : (width - BitVec.ofNat 32 w).toNat = width.toNat - w := by
    have hle : BitVec.ofNat 32 w ≤ width := by
      rw [BitVec.le_def, BitVec.toNat_ofNat, Nat.mod_eq_of_lt (by omega)]
      exact Nat.le_of_lt hw
    rw [BitVec.toNat_sub_of_le hle, BitVec.toNat_ofNat, Nat.mod_eq_of_lt (by omega)]
  have hrow : (BitVec.ofNat 32 h * width).toNat = h * width.toNat % 2 ^ 32 := by
    rw [BitVec.toNat_mul, BitVec.toNat_ofNat, Nat.mod_mul_mod]
  rw [rotate, getElem?_rotateColumns hw hh, hcolumn, hrow]

theorem exactRotation_iff :
    ExactRotation f src width.toNat height.toNat (rotate f src width height) ↔
      width = 0 ∨ height = 0 := by
  constructor
  · intro hexact
    by_contra hpixels
    obtain ⟨hwidth, hheight⟩ := not_or.mp hpixels
    have hw : 0 < width.toNat := Nat.pos_of_ne_zero fun h => hwidth (BitVec.eq_of_toNat_eq h)
    have hh : 0 < height.toNat := Nat.pos_of_ne_zero fun h => hheight (BitVec.eq_of_toNat_eq h)
    -- the first pixel comes from behind the first row
    have hfirst := hexact.pixel 0 hw 0 hh
    rw [getElem?_rotate hw hh] at hfirst
    have hsource := congrArg Prod.fst (Option.some.inj hfirst)
    simp only [Nat.zero_mul, Nat.zero_mod, Nat.sub_zero, Nat.add_zero, Nat.zero_add] at hsource
    omega
  · intro hnone
    have hwidth : width.toNat = 0 ∨ height.toNat = 0 := hnone.imp (congrArg BitVec.toNat) (congrArg BitVec.toNat)
    have hnil : rotate f src width height = [] := by
      rw [← List.length_eq_zero_iff, length_rotate]
      exact Nat.mul_eq_zero.mpr hwidth
    refine ⟨fun w hw h hh => ?_, fun column hcolumn row hrow => ?_, fun x hx => ?_⟩
    · omega
    · omega
    · rw [hnil] at hx
      cases hx

end Laws

/-- Both loops rotate exactly only pictures without pixels. -/
theorem rotations_exact_iff (y : Nat → BitVec 8) (s : Nat → BitVec 32) (width height : BitVec 32) :
    (ExactRotation abgr y width.toNat height.toNat (rotateYAsGray y width height) ∧
      ExactRotation id s width.toNat height.toNat (rotatePixels s width height)) ↔
    width = 0 ∨ height = 0 := by
  rw [rotateYAsGray, rotatePixels, exactRotation_iff, exactRotation_iff, and_self]

/-- The loops read pixels 2, 4, 1 and 3 of a picture of four. -/
theorem rotates_shifted :
    (rotatePixels (fun i => BitVec.ofNat 32 i) 2 2).map Prod.fst = [2, 4, 1, 3] ∧
      ¬ ExactRotation id (fun i => BitVec.ofNat 32 i) 2 2 (rotatePixels (fun i => BitVec.ofNat 32 i) 2 2) := by
  refine ⟨rfl, fun h => ?_⟩
  have hfirst := h.pixel 0 (by decide) 0 (by decide)
  revert hfirst
  decide

end Allwinner.Camera
