import Allwinner.Library.Canvas
import Allwinner.Camera.DoubleBuffer

/-!
# The conversion of camera pictures

The camera delivers planes of Y, U and V, and pixels beside each other share a sample of U and V.
The conversion goes through the picture block by block. There is one function for each layout of
the planes and of a pixel, all of them made from one text.
-/

namespace Allwinner.Camera

open Library Canvas

-- ---------------------------------------------------------------------------
-- Colours
-- ---------------------------------------------------------------------------

abbrev PRECISION : Nat := 6
abbrev PRECISION_FACTOR : Int := 64

/-- The fixed-point value of `n / 10000`. -/
def V (n : Nat) : Int := ((n * 2 * 64 + 10000) / 20000 : Nat)

structure YUV2RGBParam where
  yShift : Int
  yFactor : Int
  vRFactor : Int
  uGFactor : Int
  vGFactor : Int
  uBFactor : Int

inductive YCbCrType where
  | jpeg
  | bt601
  | bt709

def YUV2RGB : YCbCrType → YUV2RGBParam
  | .jpeg => ⟨0, V 10000, V 14020, -V 3441, -V 7141, V 17720⟩
  | .bt601 => ⟨16, V 11644, V 15960, -V 3918, -V 8130, V 20172⟩
  | .bt709 => ⟨16, V 11644, V 17927, -V 2132, -V 5329, V 21124⟩

def lut : List (BitVec 8) :=
  List.replicate 128 0 ++ ((List.range 256).map (BitVec.ofNat 8) ++ List.replicate 128 255)

/-- Outside of the table there is no value. -/
def clampU8 (v : Int) : Option (BitVec 8) :=
  let i := (v + 128 * PRECISION_FACTOR) >>> PRECISION
  if 0 ≤ i then lut[i.toNat]? else none

-- ---------------------------------------------------------------------------
-- Layouts
-- ---------------------------------------------------------------------------

/-- Layouts of the planes. All of them have one sample of U and V for two pixels of a row. -/
structure YuvFormat where
  yPixelStride : Nat
  uvPixelStride : Nat
  /-- the rows that share samples -/
  uvYSampleInterval : Nat
  interval : uvYSampleInterval = 1 ∨ uvYSampleInterval = 2

def YUV_FORMAT_420 : YuvFormat := ⟨1, 1, 2, .inr rfl⟩
def YUV_FORMAT_422 : YuvFormat := ⟨2, 4, 1, .inl rfl⟩
def YUV_FORMAT_NV12 : YuvFormat := ⟨1, 2, 2, .inr rfl⟩

/-- Layouts of a pixel, as `PACK_PIXEL` writes its bytes. -/
structure RgbFormat where
  size : Nat
  pack : (r g b : BitVec 8) → List (BitVec 8)
  length_pack : ∀ r g b, (pack r g b).length = size

/-- The bytes of a word in memory. -/
def wordBytes (n : Nat) (v : BitVec (8 * n)) : List (BitVec 8) :=
  (List.range n).map fun i => v.extractLsb' (8 * i) 8

theorem length_wordBytes (n : Nat) (v : BitVec (8 * n)) : (wordBytes n v).length = n := by
  rw [wordBytes, List.length_map, List.length_range]

def RGB_FORMAT_RGB565 : RgbFormat where
  size := 2
  pack r g b := wordBytes 2 (((r.setWidth 16 <<< 8) &&& 0xF800#16) ||| ((g.setWidth 16 <<< 3) &&& 0x07E0#16) |||
    (b.setWidth 16 >>> 3))
  length_pack _ _ _ := length_wordBytes ..

def RGB_FORMAT_RGB24 : RgbFormat where
  size := 3
  pack r g b := [r, g, b]
  length_pack _ _ _ := rfl

def RGB_FORMAT_RGBA : RgbFormat where
  size := 4
  pack r g b := wordBytes 4 ((r.setWidth 32 <<< 24) ||| (g.setWidth 32 <<< 16) ||| (b.setWidth 32 <<< 8) |||
    0x000000FF#32)
  length_pack _ _ _ := length_wordBytes ..

def RGB_FORMAT_BGRA : RgbFormat where
  size := 4
  pack r g b := wordBytes 4 ((b.setWidth 32 <<< 24) ||| (g.setWidth 32 <<< 16) ||| (r.setWidth 32 <<< 8) |||
    0x000000FF#32)
  length_pack _ _ _ := length_wordBytes ..

def RGB_FORMAT_ARGB : RgbFormat where
  size := 4
  pack r g b := wordBytes 4 (0xFF000000#32 ||| (r.setWidth 32 <<< 16) ||| (g.setWidth 32 <<< 8) ||| b.setWidth 32)
  length_pack _ _ _ := length_wordBytes ..

def RGB_FORMAT_ABGR : RgbFormat where
  size := 4
  pack r g b := wordBytes 4 (0xFF000000#32 ||| (b.setWidth 32 <<< 16) ||| (g.setWidth 32 <<< 8) ||| r.setWidth 32)
  length_pack _ _ _ := length_wordBytes ..

-- ---------------------------------------------------------------------------
-- The loops
-- ---------------------------------------------------------------------------

structure Planes where
  y : Bytes
  u : Bytes
  v : Bytes

/-- The arguments of a conversion. -/
structure Geometry where
  width : BitVec 32
  height : BitVec 32
  yStride : BitVec 32
  uvStride : BitVec 32
  rgbStride : BitVec 32

/-- `y_ptr` and `rgb_ptr` of a row. -/
structure RowPtr where
  y : Nat
  rgb : Nat

/-- The rounds of `for (i = 0; i < limit; i += step)`. -/
def rounds (limit : BitVec 32) (step : Nat) : Nat := (limit.toNat + (step - 1)) / step

section Loops

variable (p : YUV2RGBParam) (yuv : YuvFormat) (rgb : RgbFormat) (planes : Planes)

/-- `PACK_PIXEL`, for one sample of each plane. -/
def packPixel (y u v : BitVec 8) : Option (List (BitVec 8)) :=
  let uTmp : Int := u.toNat - 128
  let vTmp : Int := v.toNat - 128
  let rTmp := vTmp * p.vRFactor
  let gTmp := uTmp * p.uGFactor + vTmp * p.vGFactor
  let bTmp := uTmp * p.uBFactor
  let yTmp := (y.toNat - p.yShift) * p.yFactor
  do return rgb.pack (← clampU8 (yTmp + rTmp)) (← clampU8 (yTmp + gTmp)) (← clampU8 (yTmp + bTmp))

/-- The next `n` pixels of a row. -/
def packRow (uvPtr : Nat) : (n : Nat) → RowPtr → Bytes → Option Bytes
  | 0, _, m => some m
  | n + 1, ptr, m => do
    let px ← packPixel p rgb (planes.y ptr.y) (planes.u uvPtr) (planes.v uvPtr)
    packRow uvPtr n ⟨ptr.y + yuv.yPixelStride, ptr.rgb + rgb.size⟩ (store m ptr.rgb px)

/-- The pixels with one sample of U and V: `n` of each row. -/
def packBlock (uvPtr n : Nat) : List RowPtr → Bytes → Option Bytes
  | [], m => some m
  | row :: rows, m => do packBlock uvPtr n rows (← packRow p yuv rgb planes uvPtr n row m)

/-- The loop along rows that share their samples of U and V. -/
def convertRows (last : Bool) : (n uvPtr : Nat) → List RowPtr → Bytes → Option Bytes
  -- "Catch the last pixel, if needed"
  | 0, uvPtr, rows, m => if last then packBlock p yuv rgb planes uvPtr 1 rows m else some m
  | n + 1, uvPtr, rows, m => do
    convertRows last n (uvPtr + 2 * yuv.uvPixelStride / 2)
      (rows.map fun row => ⟨row.y + 2 * yuv.yPixelStride, row.rgb + 2 * rgb.size⟩)
      (← packBlock p yuv rgb planes uvPtr 2 rows m)

variable (g : Geometry)

/-- Row `y`. -/
def rowPtr (y : BitVec 32) : RowPtr := ⟨(y * g.yStride).toNat, (y * g.rgbStride).toNat⟩

/-- The rows `ys`, from their first pixels on. -/
def convertLine (y : BitVec 32) (ys : List (BitVec 32)) (m : Bytes) : Option Bytes :=
  let n := rounds (g.width - 1) 2
  convertRows p yuv rgb planes (BitVec.ofNat 32 (2 * n) == g.width - 1) n
    (y / BitVec.ofNat 32 yuv.uvYSampleInterval * g.uvStride).toNat (ys.map (rowPtr g)) m

/-- The loop over the rows, for `n` more rounds. -/
def convertLines : (n : Nat) → (y : BitVec 32) → Bytes → Option Bytes
  | 0, _, m => some m
  | n + 1, y, m => do
    let ys := (List.range yuv.uvYSampleInterval).map fun k => y + BitVec.ofNat 32 k
    convertLines n (y + BitVec.ofNat 32 yuv.uvYSampleInterval) (← convertLine p yuv rgb planes g y ys m)

/-- `STD_FUNCTION_NAME`, for a picture with pixels. -/
def convert (m : Bytes) : Option Bytes := do
  let interval := yuv.uvYSampleInterval
  let n := rounds (g.height - BitVec.ofNat 32 (interval - 1)) interval
  let m ← convertLines p yuv rgb planes g n 0 m
  let y := BitVec.ofNat 32 (n * interval)
  -- "Catch the last line, if needed"
  if interval = 2 ∧ y = g.height - 1 then convertLine p yuv rgb planes g y [y] m else some m

end Loops

-- ---------------------------------------------------------------------------
-- What the conversion computes
-- ---------------------------------------------------------------------------

/-- "clamp to [0:255] interval" -/
def clamp (k : Int) : BitVec 8 := BitVec.ofNat 8 (min 255 k.toNat)

/-- The sums of a pixel, scaled by `PRECISION_FACTOR`. -/
def YUV2RGBParam.red (p : YUV2RGBParam) (y v : BitVec 8) : Int :=
  (y.toNat - p.yShift) * p.yFactor + (v.toNat - 128) * p.vRFactor

def YUV2RGBParam.green (p : YUV2RGBParam) (y u v : BitVec 8) : Int :=
  (y.toNat - p.yShift) * p.yFactor + ((u.toNat - 128) * p.uGFactor + (v.toNat - 128) * p.vGFactor)

def YUV2RGBParam.blue (p : YUV2RGBParam) (y u : BitVec 8) : Int :=
  (y.toNat - p.yShift) * p.yFactor + (u.toNat - 128) * p.uBFactor

/-- The sum has a value in the table. -/
def Clamped (v : Int) : Prop := -128 * PRECISION_FACTOR ≤ v ∧ v < 384 * PRECISION_FACTOR

instance (v : Int) : Decidable (Clamped v) := inferInstanceAs (Decidable (_ ∧ _))

theorem lut_getElem? (i : Nat) (h : i < 512) : lut[i]? = some (clamp (i - 128)) := by
  unfold lut clamp
  rw [List.getElem?_append, List.getElem?_append]
  simp only [List.length_replicate, List.length_map, List.length_range]
  by_cases hlow : i < 128
  · rw [if_pos hlow, List.getElem?_replicate, if_pos hlow, show ((i : Int) - 128).toNat = 0 by omega]
    rfl
  · have hindex : ((i : Int) - 128).toNat = i - 128 := by omega
    rw [if_neg hlow, hindex]
    by_cases hmid : i - 128 < 256
    · rw [if_pos hmid, List.getElem?_map, List.getElem?_range hmid, Nat.min_eq_right (Nat.le_of_lt_succ hmid)]
      rfl
    · rw [if_neg hmid, List.getElem?_replicate, if_pos (by omega), Nat.min_eq_left (by omega)]
      rfl

/-- The table has a value for the sums below the documented bound. -/
theorem clampU8_eq (v : Int) : clampU8 v = if Clamped v then some (clamp (v / PRECISION_FACTOR)) else none := by
  have hindex : (v + 128 * PRECISION_FACTOR) >>> PRECISION = v / PRECISION_FACTOR + 128 := by
    rw [Int.shiftRight_eq_div_pow]
    exact Int.add_mul_ediv_right v 128 (by decide)
  have hclamped : Clamped v ↔ 0 ≤ v / PRECISION_FACTOR + 128 ∧ v / PRECISION_FACTOR + 128 < 512 := by
    unfold Clamped PRECISION_FACTOR
    omega
  unfold clampU8
  rw [hindex]
  dsimp only
  by_cases hlow : 0 ≤ v / PRECISION_FACTOR + 128
  · rw [if_pos hlow]
    by_cases hhigh : v / PRECISION_FACTOR + 128 < 512
    · rw [if_pos (hclamped.mpr ⟨hlow, hhigh⟩), lut_getElem? _ (by omega), Int.toNat_of_nonneg hlow,
        Int.add_sub_cancel]
    · rw [if_neg fun h => hhigh (hclamped.mp h).2]
      refine List.getElem?_eq_none ?_
      rw [lut, List.length_append, List.length_append, List.length_replicate, List.length_map,
        List.length_range, List.length_replicate]
      omega
  · rw [if_neg hlow, if_neg fun h => hlow (hclamped.mp h).1]

section Laws

variable {p : YUV2RGBParam} {yuv : YuvFormat} {rgb : RgbFormat} {planes : Planes} {g : Geometry}

/-- The bytes of a pixel with these samples. -/
def packed (p : YUV2RGBParam) (rgb : RgbFormat) (y u v : BitVec 8) : List (BitVec 8) :=
  rgb.pack (clamp (p.red y v / PRECISION_FACTOR)) (clamp (p.green y u v / PRECISION_FACTOR))
    (clamp (p.blue y u / PRECISION_FACTOR))

/-- All three sums have values in the table. -/
def InGamut (p : YUV2RGBParam) (y u v : BitVec 8) : Prop :=
  Clamped (p.red y v) ∧ Clamped (p.green y u v) ∧ Clamped (p.blue y u)

instance (p : YUV2RGBParam) (y u v : BitVec 8) : Decidable (InGamut p y u v) :=
  inferInstanceAs (Decidable (_ ∧ _))

theorem packPixel_eq (y u v : BitVec 8) :
    packPixel p rgb y u v = if InGamut p y u v then some (packed p rgb y u v) else none := by
  have hsums : packPixel p rgb y u v = do
      return rgb.pack (← clampU8 (p.red y v)) (← clampU8 (p.green y u v)) (← clampU8 (p.blue y u)) := rfl
  rw [hsums, clampU8_eq, clampU8_eq, clampU8_eq]
  unfold InGamut
  by_cases hr : Clamped (p.red y v) <;> by_cases hg : Clamped (p.green y u v) <;>
    by_cases hb : Clamped (p.blue y u) <;> simp [hr, hg, hb, packed]

-- ---------------------------------------------------------------------------
-- Where the samples are
-- ---------------------------------------------------------------------------

/-- The pictures whose planes are below 4 GiB, with rows apart. -/
structure Geometry.Fits (g : Geometry) (rgb : RgbFormat) : Prop where
  width_pos : 0 < g.width.toNat
  height_pos : 0 < g.height.toNat
  y_fits : g.height.toNat * g.yStride.toNat ≤ 2 ^ 32
  uv_fits : g.height.toNat * g.uvStride.toNat ≤ 2 ^ 32
  rgb_fits : g.height.toNat * g.rgbStride.toNat ≤ 2 ^ 32
  rows_apart : g.width.toNat * rgb.size ≤ g.rgbStride.toNat

namespace Geometry

/-- The places of pixel `(x, y)` and its samples. -/
def yIndex (g : Geometry) (yuv : YuvFormat) (c : Nat × Nat) : Nat :=
  c.2 * g.yStride.toNat + c.1 * yuv.yPixelStride

def uvIndex (g : Geometry) (yuv : YuvFormat) (c : Nat × Nat) : Nat :=
  c.2 / yuv.uvYSampleInterval * g.uvStride.toNat + c.1 / 2 * yuv.uvPixelStride

def rgbIndex (g : Geometry) (rgb : RgbFormat) (c : Nat × Nat) : Nat :=
  c.2 * g.rgbStride.toNat + c.1 * rgb.size

end Geometry

/-- Pixel `(x, y)`, as the loops pack it. -/
def pixelAt (p : YUV2RGBParam) (yuv : YuvFormat) (rgb : RgbFormat) (planes : Planes) (g : Geometry)
    (c : Nat × Nat) : Option (List (BitVec 8)) :=
  packPixel p rgb (planes.y (g.yIndex yuv c)) (planes.u (g.uvIndex yuv c)) (planes.v (g.uvIndex yuv c))

/-- The pixels of a block: `n` of each of `r` rows. -/
def blockPixels (x y n r : Nat) : List (Nat × Nat) :=
  (List.range r).flatMap fun k => (List.range n).map fun i => (x + i, y + k)

/-- The pixels of `r` rows, `n` blocks and maybe one pixel each. -/
def linePixels (last : Bool) (r : Nat) : (n x y : Nat) → List (Nat × Nat)
  | 0, x, y => if last then blockPixels x y 1 r else []
  | n + 1, x, y => blockPixels x y 2 r ++ linePixels last r n (x + 2) y

theorem mem_blockPixels : c ∈ blockPixels x y n r ↔ (x ≤ c.1 ∧ c.1 < x + n) ∧ y ≤ c.2 ∧ c.2 < y + r := by
  obtain ⟨a, b⟩ := c
  simp only [blockPixels, List.mem_flatMap, List.mem_map, List.mem_range, Prod.mk.injEq]
  constructor
  · rintro ⟨k, hk, i, hi, rfl, rfl⟩
    omega
  · rintro ⟨⟨hx, hxn⟩, hy, hyr⟩
    exact ⟨b - y, by omega, a - x, by omega, by omega, by omega⟩

theorem mem_linePixels {last : Bool} : c ∈ linePixels last r n x y ↔
    (x ≤ c.1 ∧ c.1 < x + 2 * n + last.toNat) ∧ y ≤ c.2 ∧ c.2 < y + r := by
  induction n generalizing x with
  | zero =>
    cases last with
    | true => simp [linePixels, mem_blockPixels]
    | false =>
      refine iff_of_false List.not_mem_nil fun h => ?_
      rw [Bool.toNat_false] at h
      omega
  | succ n ih =>
    rw [linePixels, List.mem_append, mem_blockPixels, ih]
    omega

/-- The start of a row's next pixels. -/
def Geometry.ptr (g : Geometry) (yuv : YuvFormat) (rgb : RgbFormat) (c : Nat × Nat) : RowPtr :=
  ⟨g.yIndex yuv c, g.rgbIndex rgb c⟩

theorem packRow_eq {uvPtr : Nat} (huv : ∀ i < n, g.uvIndex yuv (x + i, y) = uvPtr) (m : Bytes) :
    packRow p yuv rgb planes uvPtr n (g.ptr yuv rgb (x, y)) m =
      paint (pixelAt p yuv rgb planes g) (g.rgbIndex rgb) ((List.range n).map fun i => (x + i, y)) m := by
  induction n generalizing x m with
  | zero => rfl
  | succ n ih =>
    have hfirst : g.uvIndex yuv (x, y) = uvPtr := huv 0 (Nat.succ_pos n)
    have hnext : (⟨(g.ptr yuv rgb (x, y)).y + yuv.yPixelStride, (g.ptr yuv rgb (x, y)).rgb + rgb.size⟩ : RowPtr) =
        g.ptr yuv rgb (x + 1, y) := by
      simp only [Geometry.ptr, Geometry.yIndex, Geometry.rgbIndex, Nat.add_mul, Nat.one_mul, Nat.add_assoc]
    have hrest : (List.range (n + 1)).map (fun i => (x + i, y)) =
        (x, y) :: (List.range n).map fun i => (x + 1 + i, y) := by
      rw [List.range_succ_eq_map, List.map_cons, List.map_map]
      exact congrArg _ (List.map_congr_left fun i _ => by simp [Nat.add_assoc, Nat.add_comm 1])
    rw [hrest, paint, packRow, hnext, pixelAt, hfirst]
    refine congrArg _ (funext fun px => ih (fun i hi => ?_) _)
    rw [← huv (i + 1) (Nat.succ_lt_succ hi), Nat.add_assoc, Nat.add_comm 1]

theorem packBlock_eq {uvPtr : Nat} (huv : ∀ k < r, ∀ i < n, g.uvIndex yuv (x + i, y + k) = uvPtr) (m : Bytes) :
    packBlock p yuv rgb planes uvPtr n ((List.range r).map fun k => g.ptr yuv rgb (x, y + k)) m =
      paint (pixelAt p yuv rgb planes g) (g.rgbIndex rgb) (blockPixels x y n r) m := by
  induction r generalizing y m with
  | zero => rfl
  | succ r ih =>
    have hrows {α : Type} (f : Nat → α) : (List.range (r + 1)).map (fun k => f (y + k)) =
        f y :: (List.range r).map fun k => f (y + 1 + k) := by
      rw [List.range_succ_eq_map, List.map_cons, List.map_map]
      exact congrArg _ (List.map_congr_left fun i _ => by simp [Nat.add_assoc, Nat.add_comm 1])
    have hblock : blockPixels x y n (r + 1) =
        ((List.range n).map fun i => (x + i, y)) ++ blockPixels x (y + 1) n r := by
      rw [blockPixels, List.flatMap_def, hrows fun k => (List.range n).map fun i => (x + i, k), List.flatten_cons]
      rfl
    rw [hrows fun k => g.ptr yuv rgb (x, k), packBlock, hblock, paint_append,
      packRow_eq (y := y) (huv 0 (Nat.succ_pos r))]
    refine congrArg _ (funext fun m' => ih (fun k hk i hi => ?_) m')
    rw [← huv (k + 1) (Nat.succ_lt_succ hk) i hi, Nat.add_assoc, Nat.add_comm 1]

theorem uvIndex_block (hx : x % 2 = 0) (hk : (y + k) / yuv.uvYSampleInterval = y / yuv.uvYSampleInterval)
    (hi : i < 2) : g.uvIndex yuv (x + i, y + k) = g.uvIndex yuv (x, y) := by
  unfold Geometry.uvIndex
  rw [hk, show (x + i) / 2 = x / 2 by omega]

theorem convertRows_eq {last : Bool} (hx : x % 2 = 0)
    (hr : ∀ k < r, (y + k) / yuv.uvYSampleInterval = y / yuv.uvYSampleInterval) (m : Bytes) :
    convertRows p yuv rgb planes last n (g.uvIndex yuv (x, y))
        ((List.range r).map fun k => g.ptr yuv rgb (x, y + k)) m =
      paint (pixelAt p yuv rgb planes g) (g.rgbIndex rgb) (linePixels last r n x y) m := by
  have hblock (j : Nat) (hj : j ≤ 2) : packBlock p yuv rgb planes (g.uvIndex yuv (x, y)) j
      ((List.range r).map fun k => g.ptr yuv rgb (x, y + k)) =
      paint (pixelAt p yuv rgb planes g) (g.rgbIndex rgb) (blockPixels x y j r) :=
    funext (packBlock_eq fun k hk i hi => uvIndex_block hx (hr k hk) (Nat.lt_of_lt_of_le hi hj))
  induction n generalizing x m with
  | zero =>
    cases last with
    | true => exact congrFun (hblock 1 (by decide)) m
    | false => rfl
  | succ n ih =>
    have huv : g.uvIndex yuv (x, y) + 2 * yuv.uvPixelStride / 2 = g.uvIndex yuv (x + 2, y) := by
      rw [Geometry.uvIndex, Geometry.uvIndex, Nat.mul_div_cancel_left _ (by decide), Nat.add_assoc,
        show (x + 2) / 2 = x / 2 + 1 by omega, Nat.succ_mul]
    have hnext (k : Nat) : (⟨(g.ptr yuv rgb (x, y + k)).y + 2 * yuv.yPixelStride,
        (g.ptr yuv rgb (x, y + k)).rgb + 2 * rgb.size⟩ : RowPtr) = g.ptr yuv rgb (x + 2, y + k) := by
      simp only [Geometry.ptr, Geometry.yIndex, Geometry.rgbIndex, Nat.add_mul, Nat.add_assoc]
    have hx' : (x + 2) % 2 = 0 := by omega
    rw [convertRows, linePixels, paint_append, hblock 2 (by decide), huv, List.map_map]
    simp only [Function.comp_def, hnext]
    exact congrArg _ (funext fun m' => ih hx' m' fun j hj =>
      funext (packBlock_eq fun k hk i hi => uvIndex_block hx' (hr k hk) (Nat.lt_of_lt_of_le hi hj)))

theorem toNat_sub_one {a : BitVec 32} (h : 0 < a.toNat) : (a - 1).toNat = a.toNat - 1 := by
  have hlt := a.isLt
  rw [BitVec.toNat_sub, show (1 : BitVec 32).toNat = 1 from rfl]
  omega

theorem rounds_pairs {a : BitVec 32} (h : 0 < a.toNat) : rounds (a - 1) 2 = a.toNat / 2 := by
  rw [rounds, toNat_sub_one h]
  omega

/-- What is left behind the pairs. -/
theorem last_of_pairs {a : BitVec 32} (h : 0 < a.toNat) :
    (BitVec.ofNat 32 (2 * (a.toNat / 2)) = a - 1) ↔ a.toNat % 2 = 1 := by
  have hlt := a.isLt
  rw [← BitVec.toNat_inj, toNat_sub_one h, BitVec.toNat_ofNat]
  omega

/-- Products with a stride do not wrap. -/
theorem toNat_ofNat_mul {h b : Nat} {s : BitVec 32} (hb : b < h) (hfits : h * s.toNat ≤ 2 ^ 32) :
    (BitVec.ofNat 32 b * s).toNat = b * s.toNat := by
  have hnext : (b + 1) * s.toNat ≤ 2 ^ 32 := Nat.le_trans (Nat.mul_le_mul_right _ hb) hfits
  rw [BitVec.toNat_mul, BitVec.toNat_ofNat, Nat.mod_mul_mod]
  rw [Nat.succ_mul] at hnext
  have hs := s.isLt
  obtain hzero | hpos := Nat.eq_zero_or_pos s.toNat
  · rw [hzero, Nat.mul_zero, Nat.zero_mod]
  · exact Nat.mod_eq_of_lt (by omega)

/-- The pixels of the `r` rows from `b` on. -/
def rowsPixels (g : Geometry) (r b : Nat) : List (Nat × Nat) :=
  linePixels (g.width.toNat % 2 == 1) r (g.width.toNat / 2) 0 b

theorem mem_rowsPixels : c ∈ rowsPixels g r b ↔ c.1 < g.width.toNat ∧ b ≤ c.2 ∧ c.2 < b + r := by
  have hbool : (g.width.toNat % 2 == 1).toNat = g.width.toNat % 2 := by
    rcases Nat.mod_two_eq_zero_or_one g.width.toNat with h | h <;> rw [h] <;> rfl
  rw [rowsPixels, mem_linePixels, hbool]
  omega

theorem convertLine_eq (hg : g.Fits rgb) (hb : b + r ≤ g.height.toNat) (hr : 0 < r)
    (hk : ∀ k < r, (b + k) / yuv.uvYSampleInterval = b / yuv.uvYSampleInterval) (m : Bytes) :
    convertLine p yuv rgb planes g (BitVec.ofNat 32 b) ((List.range r).map fun k => BitVec.ofNat 32 (b + k)) m =
      paint (pixelAt p yuv rgb planes g) (g.rgbIndex rgb) (rowsPixels g r b) m := by
  have hheight := g.height.isLt
  have hinterval : 0 < yuv.uvYSampleInterval ∧ yuv.uvYSampleInterval ≤ 2 := by
    have := yuv.interval
    omega
  have hdiv : BitVec.ofNat 32 b / BitVec.ofNat 32 yuv.uvYSampleInterval =
      BitVec.ofNat 32 (b / yuv.uvYSampleInterval) := by
    have hle := Nat.div_le_self b yuv.uvYSampleInterval
    apply BitVec.eq_of_toNat_eq
    rw [BitVec.toNat_udiv, BitVec.toNat_ofNat, BitVec.toNat_ofNat, BitVec.toNat_ofNat,
      Nat.mod_eq_of_lt (by omega), Nat.mod_eq_of_lt (by omega), Nat.mod_eq_of_lt (by omega)]
  have huv : (BitVec.ofNat 32 b / BitVec.ofNat 32 yuv.uvYSampleInterval * g.uvStride).toNat =
      g.uvIndex yuv (0, b) := by
    have hle := Nat.div_le_self b yuv.uvYSampleInterval
    rw [hdiv, toNat_ofNat_mul (by omega) hg.uv_fits, Geometry.uvIndex]
    simp
  have hrows : (List.range r).map (rowPtr g ∘ fun k => BitVec.ofNat 32 (b + k)) =
      (List.range r).map fun k => g.ptr yuv rgb (0, b + k) := by
    refine List.map_congr_left fun k hk => ?_
    have hlt : b + k < g.height.toNat := by
      have := List.mem_range.mp hk
      omega
    simp only [Function.comp_apply, rowPtr, toNat_ofNat_mul hlt hg.y_fits, toNat_ofNat_mul hlt hg.rgb_fits,
      Geometry.ptr, Geometry.yIndex, Geometry.rgbIndex, Nat.zero_mul, Nat.add_zero]
  have hlast : (BitVec.ofNat 32 (2 * (g.width.toNat / 2)) == g.width - 1) = (g.width.toNat % 2 == 1) := by
    rw [Bool.eq_iff_iff, beq_iff_eq, beq_iff_eq, last_of_pairs hg.width_pos]
  rw [convertLine, rounds_pairs hg.width_pos, hlast, huv, List.map_map, hrows]
  exact convertRows_eq rfl hk m

/-- The pixels of the rows in `n` rounds of the loop, from row `b` on. -/
def roundsPixels (yuv : YuvFormat) (g : Geometry) : (n b : Nat) → List (Nat × Nat)
  | 0, _ => []
  | n + 1, b => rowsPixels g yuv.uvYSampleInterval b ++ roundsPixels yuv g n (b + yuv.uvYSampleInterval)

theorem mem_roundsPixels : c ∈ roundsPixels yuv g n b ↔
    c.1 < g.width.toNat ∧ b ≤ c.2 ∧ c.2 < b + n * yuv.uvYSampleInterval := by
  induction n generalizing b with
  | zero => simp [roundsPixels]
  | succ n ih =>
    rw [roundsPixels, List.mem_append, mem_rowsPixels, ih, Nat.succ_mul]
    omega

theorem convertLines_eq (hg : g.Fits rgb) (hb : b % yuv.uvYSampleInterval = 0)
    (hn : b + n * yuv.uvYSampleInterval ≤ g.height.toNat) (m : Bytes) :
    convertLines p yuv rgb planes g n (BitVec.ofNat 32 b) m =
      paint (pixelAt p yuv rgb planes g) (g.rgbIndex rgb) (roundsPixels yuv g n b) m := by
  have hpos : 0 < yuv.uvYSampleInterval := by
    have := yuv.interval
    omega
  induction n generalizing b m with
  | zero => rfl
  | succ n ih =>
    rw [Nat.succ_mul] at hn
    have hsame : ∀ k < yuv.uvYSampleInterval, (b + k) / yuv.uvYSampleInterval = b / yuv.uvYSampleInterval := by
      intro k hk
      obtain ⟨q, rfl⟩ := Nat.dvd_of_mod_eq_zero hb
      rw [Nat.mul_add_div hpos, Nat.div_eq_of_lt hk, Nat.mul_div_cancel_left _ hpos, Nat.add_zero]
    have hline : convertLine p yuv rgb planes g (BitVec.ofNat 32 b)
        ((List.range yuv.uvYSampleInterval).map fun k => BitVec.ofNat 32 b + BitVec.ofNat 32 k) m =
        paint (pixelAt p yuv rgb planes g) (g.rgbIndex rgb) (rowsPixels g yuv.uvYSampleInterval b) m := by
      simp only [← BitVec.ofNat_add]
      exact convertLine_eq hg (by omega) hpos hsame m
    rw [convertLines, roundsPixels, paint_append, hline, ← BitVec.ofNat_add]
    exact congrArg _ (funext fun m' => ih (by rw [Nat.add_mod_right, hb]) (by omega) m')

/-- The conversion paints the pixels of the picture. -/
theorem convert_eq (p : YUV2RGBParam) (yuv : YuvFormat) (planes : Planes) (hg : g.Fits rgb) :
    ∃ l : List (Nat × Nat),
    (∀ c, c ∈ l ↔ c.1 < g.width.toNat ∧ c.2 < g.height.toNat) ∧
      ∀ m, convert p yuv rgb planes g m = paint (pixelAt p yuv rgb planes g) (g.rgbIndex rgb) l m := by
  have hlt := g.height.isLt
  have hpos := hg.height_pos
  obtain hone | htwo := yuv.interval
  · refine ⟨roundsPixels yuv g g.height.toNat 0, fun c => ?_, fun m => ?_⟩
    · rw [mem_roundsPixels, hone]
      omega
    · have hrounds : rounds (g.height - BitVec.ofNat 32 (yuv.uvYSampleInterval - 1)) yuv.uvYSampleInterval =
          g.height.toNat := by
        rw [hone]
        simp [rounds]
      have hlines : convertLines p yuv rgb planes g g.height.toNat 0 m =
          paint (pixelAt p yuv rgb planes g) (g.rgbIndex rgb) (roundsPixels yuv g g.height.toNat 0) m :=
        convertLines_eq hg (Nat.zero_mod _) (by rw [hone]; omega) m
      rw [convert, hrounds, ← hlines]
      simp [hone]
  · have hrounds : rounds (g.height - BitVec.ofNat 32 (yuv.uvYSampleInterval - 1)) yuv.uvYSampleInterval =
        g.height.toNat / 2 := by
      rw [htwo]
      exact rounds_pairs hpos
    have hlines (m : Bytes) : convertLines p yuv rgb planes g (g.height.toNat / 2) 0 m =
        paint (pixelAt p yuv rgb planes g) (g.rgbIndex rgb) (roundsPixels yuv g (g.height.toNat / 2) 0) m :=
      convertLines_eq hg (Nat.zero_mod _) (by rw [htwo]; omega) m
    have hend : (BitVec.ofNat 32 (g.height.toNat / 2 * 2) = g.height - 1) ↔ g.height.toNat % 2 = 1 := by
      rw [Nat.mul_comm]
      exact last_of_pairs hpos
    by_cases hodd : g.height.toNat % 2 = 1
    · refine ⟨roundsPixels yuv g (g.height.toNat / 2) 0 ++ rowsPixels g 1 (g.height.toNat / 2 * 2),
        fun c => ?_, fun m => ?_⟩
      · rw [List.mem_append, mem_roundsPixels, mem_rowsPixels, htwo]
        omega
      · have hline (m : Bytes) : convertLine p yuv rgb planes g (BitVec.ofNat 32 (g.height.toNat / 2 * 2))
            [BitVec.ofNat 32 (g.height.toNat / 2 * 2)] m = paint (pixelAt p yuv rgb planes g) (g.rgbIndex rgb)
              (rowsPixels g 1 (g.height.toNat / 2 * 2)) m :=
          convertLine_eq hg (r := 1) (by omega) (by decide)
            (fun k hk => by rw [Nat.lt_one_iff.mp hk, Nat.add_zero]) m
        rw [convert, hrounds, paint_append, ← hlines]
        simp only [htwo, true_and, hend, hodd, if_true, hline]
        rfl
    · refine ⟨roundsPixels yuv g (g.height.toNat / 2) 0, fun c => ?_, fun m => ?_⟩
      · rw [mem_roundsPixels, htwo]
        omega
      · rw [convert, hrounds, ← hlines]
        simp only [htwo, true_and, hend, hodd, if_false]
        exact bind_pure _

/-- The pixels of the picture are those of their samples, and nothing else has changed. -/
structure Converted (p : YUV2RGBParam) (yuv : YuvFormat) (rgb : RgbFormat) (planes : Planes) (g : Geometry)
    (m m' : Bytes) : Prop where
  pixel : ∀ x < g.width.toNat, ∀ y < g.height.toNat, ∀ k < rgb.size, some (m' (g.rgbIndex rgb (x, y) + k)) =
    (packed p rgb (planes.y (g.yIndex yuv (x, y))) (planes.u (g.uvIndex yuv (x, y)))
      (planes.v (g.uvIndex yuv (x, y))))[k]?
  frame : ∀ k, (∀ x < g.width.toNat, ∀ y < g.height.toNat,
    k < g.rgbIndex rgb (x, y) ∨ g.rgbIndex rgb (x, y) + rgb.size ≤ k) → m' k = m k

/-- Pixels are apart. -/
theorem rgbIndex_apart (hg : g.Fits rgb) {c d : Nat × Nat} (hc : c.1 < g.width.toNat) (hd : d.1 < g.width.toNat)
    (hne : c ≠ d) : g.rgbIndex rgb c + rgb.size ≤ g.rgbIndex rgb d ∨
      g.rgbIndex rgb d + rgb.size ≤ g.rgbIndex rgb c := by
  have hrow {c d : Nat × Nat} (hc : c.1 < g.width.toNat) (hlt : c.2 < d.2) :
      g.rgbIndex rgb c + rgb.size ≤ g.rgbIndex rgb d := by
    have hx : (c.1 + 1) * rgb.size ≤ g.rgbStride.toNat := (Nat.mul_le_mul_right _ hc).trans hg.rows_apart
    have hy : (c.2 + 1) * g.rgbStride.toNat ≤ d.2 * g.rgbStride.toNat := Nat.mul_le_mul_right _ hlt
    unfold Geometry.rgbIndex
    rw [Nat.succ_mul] at hx hy
    omega
  have hcolumn {c d : Nat × Nat} (hlt : c.1 < d.1) (heq : c.2 = d.2) :
      g.rgbIndex rgb c + rgb.size ≤ g.rgbIndex rgb d := by
    have hx : (c.1 + 1) * rgb.size ≤ d.1 * rgb.size := Nat.mul_le_mul_right _ hlt
    unfold Geometry.rgbIndex
    rw [Nat.succ_mul] at hx
    rw [heq]
    omega
  obtain hlt | heq | hgt := Nat.lt_trichotomy c.2 d.2
  · exact .inl (hrow hc hlt)
  · obtain hlt | heq' | hgt := Nat.lt_trichotomy c.1 d.1
    · exact .inl (hcolumn hlt heq)
    · exact absurd (Prod.ext heq' heq) hne
    · exact .inr (hcolumn hgt heq.symm)
  · exact .inr (hrow hd hgt)

theorem pixelAt_eq (c : Nat × Nat) : pixelAt p yuv rgb planes g c =
    if InGamut p (planes.y (g.yIndex yuv c)) (planes.u (g.uvIndex yuv c)) (planes.v (g.uvIndex yuv c)) then
      some (packed p rgb (planes.y (g.yIndex yuv c)) (planes.u (g.uvIndex yuv c)) (planes.v (g.uvIndex yuv c)))
    else none := packPixel_eq ..

theorem length_pixelAt {c : Nat × Nat} {bs : List (BitVec 8)} (hbs : bs ∈ pixelAt p yuv rgb planes g c) :
    bs.length = rgb.size := by
  rw [pixelAt_eq, Option.mem_def, Option.ite_none_right_eq_some] at hbs
  rw [← Option.some.inj hbs.2]
  exact rgb.length_pack ..

/-- Nothing outside of the table is read exactly if no sum of a pixel is outside of it. -/
theorem exists_convert (hg : g.Fits rgb) {m : Bytes} : (∃ m', convert p yuv rgb planes g m = some m') ↔
    ∀ x < g.width.toNat, ∀ y < g.height.toNat, InGamut p (planes.y (g.yIndex yuv (x, y)))
      (planes.u (g.uvIndex yuv (x, y))) (planes.v (g.uvIndex yuv (x, y))) := by
  obtain ⟨l, hmem, heq⟩ := convert_eq p yuv planes hg
  rw [heq, exists_paint]
  refine ⟨fun h x hx y hy => ?_, fun h c hc => ?_⟩
  · obtain ⟨bs, hbs⟩ := h (x, y) ((hmem _).mpr ⟨hx, hy⟩)
    rw [pixelAt_eq, Option.ite_none_right_eq_some] at hbs
    exact hbs.1
  · obtain ⟨hx, hy⟩ := (hmem c).mp hc
    exact ⟨_, (pixelAt_eq c).trans (if_pos (h c.1 hx c.2 hy))⟩

theorem converted_of_convert (hg : g.Fits rgb) {m m' : Bytes} (hm' : convert p yuv rgb planes g m = some m') :
    Converted p yuv rgb planes g m m' := by
  have hgamut := (exists_convert hg).mp ⟨m', hm'⟩
  obtain ⟨l, hmem, heq⟩ := convert_eq p yuv planes hg
  rw [heq] at hm'
  constructor
  case pixel =>
    intro x hx y hy k hk
    have hpacked : pixelAt p yuv rgb planes g (x, y) = some _ :=
      (pixelAt_eq (x, y)).trans (if_pos (hgamut x hx y hy))
    have hlt : k < (packed p rgb (planes.y (g.yIndex yuv (x, y))) (planes.u (g.uvIndex yuv (x, y)))
        (planes.v (g.uvIndex yuv (x, y)))).length := hk.trans_eq (rgb.length_pack ..).symm
    have hbyte := List.getElem?_eq_getElem hlt
    rw [hbyte, paint_inside hm' (fun _ _ _ => length_pixelAt) (fun c hc d hd hne =>
      rgbIndex_apart hg ((hmem c).mp hc).1 ((hmem d).mp hd).1 hne) ((hmem _).mpr ⟨hx, hy⟩) hpacked hbyte]
  case frame =>
    intro k hk
    exact paint_frame hm' (fun _ _ _ => length_pixelAt) fun c hc =>
      hk c.1 ((hmem c).mp hc).1 c.2 ((hmem c).mp hc).2

/-- A picture is converted if no sum of a pixel is outside of the table, and exactly then nothing
outside of it is read. -/
theorem convert_iff (p : YUV2RGBParam) (yuv : YuvFormat) (rgb : RgbFormat) (planes : Planes) (g : Geometry)
    (hg : g.Fits rgb) (m : Bytes) :
    (∀ m', convert p yuv rgb planes g m = some m' → Converted p yuv rgb planes g m m') ∧
    ((∃ m', convert p yuv rgb planes g m = some m') ↔ ∀ x < g.width.toNat, ∀ y < g.height.toNat,
      InGamut p (planes.y (g.yIndex yuv (x, y))) (planes.u (g.uvIndex yuv (x, y)))
        (planes.v (g.uvIndex yuv (x, y)))) :=
  ⟨fun _ => converted_of_convert hg, exists_convert hg⟩

end Laws

/-- A white picture of three by three pixels, with a column and a row left behind the blocks. -/
theorem white_converted : ∃ m', convert (YUV2RGB .jpeg) YUV_FORMAT_420 RGB_FORMAT_RGB24
      ⟨fun _ => 255, fun _ => 128, fun _ => 128⟩ ⟨3, 3, 3, 2, 9⟩ (fun _ => 0) = some m' ∧
    m' 26 = 255 ∧ m' 27 = 0 := by
  have hfits : Geometry.Fits ⟨3, 3, 3, 2, 9⟩ RGB_FORMAT_RGB24 :=
    ⟨by decide, by decide, by decide, by decide, by decide, by decide⟩
  obtain ⟨hconverted, hexists⟩ := convert_iff (YUV2RGB .jpeg) YUV_FORMAT_420 RGB_FORMAT_RGB24
    ⟨fun _ => 255, fun _ => 128, fun _ => 128⟩ ⟨3, 3, 3, 2, 9⟩ hfits fun _ => 0
  obtain ⟨m', hm'⟩ := hexists.mpr fun x _ y _ => by
    show InGamut (YUV2RGB .jpeg) 255 128 128
    decide
  refine ⟨m', hm', ?_, ?_⟩
  · have hpixel := (hconverted m' hm').pixel 2 (by decide) 2 (by decide) 2 (by decide)
    exact Option.some.inj (hpixel.trans (by decide))
  · exact (hconverted m' hm').frame 27 (by decide)

-- ---------------------------------------------------------------------------
-- The functions
-- ---------------------------------------------------------------------------

abbrev Conversion := (g : Geometry) → (planes : Planes) → (type : YCbCrType) → Bytes → Option Bytes

def std (yuv : YuvFormat) (rgb : RgbFormat) : Conversion :=
  fun g planes type => convert (YUV2RGB type) yuv rgb planes g

def yuv420Rgb565Std := std YUV_FORMAT_420 RGB_FORMAT_RGB565
def yuv420Rgb24Std := std YUV_FORMAT_420 RGB_FORMAT_RGB24
def yuv420RgbaStd := std YUV_FORMAT_420 RGB_FORMAT_RGBA
def yuv420BgraStd := std YUV_FORMAT_420 RGB_FORMAT_BGRA
def yuv420ArgbStd := std YUV_FORMAT_420 RGB_FORMAT_ARGB
def yuv420AbgrStd := std YUV_FORMAT_420 RGB_FORMAT_ABGR
def yuv422Rgb565Std := std YUV_FORMAT_422 RGB_FORMAT_RGB565
def yuv422Rgb24Std := std YUV_FORMAT_422 RGB_FORMAT_RGB24
def yuv422RgbaStd := std YUV_FORMAT_422 RGB_FORMAT_RGBA
def yuv422BgraStd := std YUV_FORMAT_422 RGB_FORMAT_BGRA
def yuv422ArgbStd := std YUV_FORMAT_422 RGB_FORMAT_ARGB
def yuv422AbgrStd := std YUV_FORMAT_422 RGB_FORMAT_ABGR
def yuvnv12Rgb565Std := std YUV_FORMAT_NV12 RGB_FORMAT_RGB565
def yuvnv12Rgb24Std := std YUV_FORMAT_NV12 RGB_FORMAT_RGB24
def yuvnv12RgbaStd := std YUV_FORMAT_NV12 RGB_FORMAT_RGBA
def yuvnv12BgraStd := std YUV_FORMAT_NV12 RGB_FORMAT_BGRA
def yuvnv12ArgbStd := std YUV_FORMAT_NV12 RGB_FORMAT_ARGB
def yuvnv12AbgrStd := std YUV_FORMAT_NV12 RGB_FORMAT_ABGR

-- ---------------------------------------------------------------------------
-- The conversion of the driver
-- ---------------------------------------------------------------------------

section Capture

variable (cfg : Config)

/-- The planes of a captured picture, as `_gui_show` takes them apart. -/
def capturedPlanes (base : Bytes) : Planes where
  y := base
  v i := base (cfg.pixels + i)
  u i := base (cfg.pixels + cfg.pixels / 4 + i)

def capturedGeometry : Geometry where
  width := cfg.width
  height := cfg.height
  yStride := cfg.width
  uvStride := cfg.width / 2
  rgbStride := cfg.width * 4

/-- The samples of pixel `(x, y)`. -/
def sampleIndex (c : Nat × Nat) : Nat := c.2 / 2 * (cfg.width.toNat / 2) + c.1 / 2

/-- Pixel `k` of a captured picture, with its colour clamped. -/
def capturedPicture (base : Bytes) (k : Nat) : BitVec 32 :=
  let p := YUV2RGB .bt601
  let planes := capturedPlanes cfg base
  let i := sampleIndex cfg (k % cfg.width.toNat, k / cfg.width.toNat)
  let (y, u, v) := (planes.y k, planes.u i, planes.v i)
  0xFF000000#32 ||| ((clamp (p.blue y u / PRECISION_FACTOR)).setWidth 32 <<< 16) |||
    ((clamp (p.green y u v / PRECISION_FACTOR)).setWidth 32 <<< 8) |||
    (clamp (p.red y v / PRECISION_FACTOR)).setWidth 32

/-- No sum of a pixel is outside of the table. -/
def PictureInGamut (base : Bytes) : Prop :=
  let planes := capturedPlanes cfg base
  ∀ x < cfg.width.toNat, ∀ y < cfg.height.toNat, InGamut (YUV2RGB .bt601) (planes.y (y * cfg.width.toNat + x))
    (planes.u (sampleIndex cfg (x, y))) (planes.v (sampleIndex cfg (x, y)))

variable {cfg}

theorem capturedGeometry_fits : (capturedGeometry cfg).Fits RGB_FORMAT_ABGR := by
  have hw := cfg.width_bounds
  have hh : 120 ≤ cfg.height.toNat ∧ cfg.height.toNat ≤ 720 := ⟨cfg.le_height, cfg.height_le⟩
  have hfour : (cfg.width * 4).toNat = cfg.width.toNat * 4 := by
    rw [BitVec.toNat_mul, show (4 : BitVec 32).toNat = 4 from rfl]
    exact Nat.mod_eq_of_lt (by omega)
  have hhalf : (cfg.width / 2).toNat = cfg.width.toNat / 2 := BitVec.toNat_udiv ..
  have hmul {s : Nat} (hs : s ≤ 5120) : cfg.height.toNat * s ≤ 2 ^ 32 :=
    (Nat.mul_le_mul hh.2 hs).trans (by decide)
  refine ⟨?_, ?_, hmul ?_, hmul ?_, hmul ?_, ?_⟩
  · change 0 < cfg.width.toNat
    omega
  · change 0 < cfg.height.toNat
    omega
  · change cfg.width.toNat ≤ 5120
    omega
  · change (cfg.width / 2).toNat ≤ 5120
    omega
  · change (cfg.width * 4).toNat ≤ 5120
    omega
  · change cfg.width.toNat * 4 ≤ (cfg.width * 4).toNat
    omega

theorem captured_yIndex (c : Nat × Nat) :
    (capturedGeometry cfg).yIndex YUV_FORMAT_420 c = c.2 * cfg.width.toNat + c.1 := by
  simp [Geometry.yIndex, capturedGeometry, YUV_FORMAT_420]

theorem captured_uvIndex (c : Nat × Nat) :
    (capturedGeometry cfg).uvIndex YUV_FORMAT_420 c = sampleIndex cfg c := by
  simp [Geometry.uvIndex, capturedGeometry, YUV_FORMAT_420, sampleIndex]

theorem captured_rgbIndex (c : Nat × Nat) :
    (capturedGeometry cfg).rgbIndex RGB_FORMAT_ABGR c = 4 * (c.2 * cfg.width.toNat + c.1) := by
  have hw := cfg.width_bounds
  have hfour : (cfg.width * 4).toNat = 4 * cfg.width.toNat := by
    rw [BitVec.toNat_mul, show (4 : BitVec 32).toNat = 4 from rfl, Nat.mul_comm]
    exact Nat.mod_eq_of_lt (by omega)
  change c.2 * (cfg.width * 4).toNat + c.1 * 4 = _
  rw [hfour, Nat.mul_add, Nat.mul_left_comm, Nat.mul_comm c.1]

theorem captured_packed {base : Bytes} (hx : x < cfg.width.toNat) :
    packed (YUV2RGB .bt601) RGB_FORMAT_ABGR ((capturedPlanes cfg base).y (y * cfg.width.toNat + x))
        ((capturedPlanes cfg base).u (sampleIndex cfg (x, y))) ((capturedPlanes cfg base).v (sampleIndex cfg (x, y))) =
      wordBytes 4 (capturedPicture cfg base (y * cfg.width.toNat + x)) := by
  simp only [capturedPicture, Raster.index_mod hx, Raster.index_div hx]
  rfl

/-- A captured picture is converted if all of its pixels are in gamut. Then `_convert_buffer` holds the
picture that is painted. -/
theorem captured_converts (hconvert : cfg.convert = true) (fbSize : Nat) (b : Buffer cfg) (buffer : Bytes) :
    (∀ m', yuv420AbgrStd (capturedGeometry cfg) (capturedPlanes cfg b.base) .bt601 buffer = some m' →
      m' = convertBuffer capturedPicture cfg fbSize b buffer) ∧
    ((∃ m', yuv420AbgrStd (capturedGeometry cfg) (capturedPlanes cfg b.base) .bt601 buffer = some m') ↔
      PictureInGamut cfg b.base) := by
  have hexists : (∃ m', yuv420AbgrStd (capturedGeometry cfg) (capturedPlanes cfg b.base) .bt601 buffer =
      some m') ↔ _ := exists_convert capturedGeometry_fits
  simp only [captured_yIndex, captured_uvIndex] at hexists
  refine ⟨fun m' hm' => funext fun i => ?_, hexists⟩
  obtain ⟨hpixel, hframe⟩ := converted_of_convert capturedGeometry_fits hm'
  simp only [captured_yIndex, captured_uvIndex, captured_rgbIndex] at hpixel hframe
  rw [convertBuffer, if_pos hconvert, Bytes.copy]
  by_cases hi : i < 4 * cfg.pixels
  · have hlt : i / 4 < cfg.width.toNat * cfg.height.toNat := Nat.div_lt_of_lt_mul hi
    obtain ⟨x, hx, y, hy, hk⟩ := Raster.exists_index hlt
    have hsum : i = 4 * (y * cfg.width.toNat + x) + i % 4 := by omega
    have hbyte := hpixel x hx y hy (i % 4) (Nat.mod_lt _ (by decide))
    rw [← hsum, captured_packed hx, ← hk, wordBytes, List.getElem?_map,
      List.getElem?_range (Nat.mod_lt _ (by decide))] at hbyte
    rw [if_pos (by omega)]
    exact Option.some.inj hbyte
  · rw [if_neg (by omega)]
    refine hframe i fun x hx y hy => .inr ?_
    have hlt := Raster.index_lt hx hy
    change y * cfg.width.toNat + x < cfg.pixels at hlt
    change 4 * (y * cfg.width.toNat + x) + 4 ≤ i
    omega

end Capture

/-- A picture without colour is in gamut. -/
theorem inGamut_gray (y : BitVec 8) : InGamut (YUV2RGB .bt601) y 128 128 := by
  have hy := y.isLt
  have hfactor : (YUV2RGB .bt601).yFactor = 75 := by decide
  have hshift : (YUV2RGB .bt601).yShift = 16 := rfl
  have hsample : ((128 : BitVec 8).toNat : Int) - 128 = 0 := by decide
  unfold InGamut Clamped YUV2RGBParam.red YUV2RGBParam.green YUV2RGBParam.blue PRECISION_FACTOR
  rw [hfactor, hshift, hsample]
  omega

example : ¬ InGamut (YUV2RGB .bt601) 235 240 128 := by decide

/-- The smallest pictures of the camera, all gray. -/
theorem gray_converted : ∃ (cfg : Config) (b : Buffer cfg) (m' : Bytes),
    yuv420AbgrStd (capturedGeometry cfg) (capturedPlanes cfg b.base) .bt601 (fun _ => 0) = some m' ∧
      m' = convertBuffer capturedPicture cfg 0 b fun _ => 0 := by
  let cfg : Config := ⟨160, 120, false, true, false, 0, by decide, by decide, by decide, by decide⟩
  let b : Buffer cfg := ⟨fun _ => 128, 28800, by decide⟩
  obtain ⟨hpicture, hexists⟩ := captured_converts rfl 0 b fun _ => 0
  obtain ⟨m', hm'⟩ := hexists.mpr fun x _ y _ => inGamut_gray 128
  exact ⟨cfg, b, m', hm', hpicture m' hm'⟩

end Allwinner.Camera
