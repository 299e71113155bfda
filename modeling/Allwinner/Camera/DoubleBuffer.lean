import Allwinner.Library.Runs
import Allwinner.Camera.Rotation

/-!
# Double buffering of camera pictures

The framebuffer has room for two pictures, beside each other, or one below the other if
they are rotated. The view displays one of them while the next is painted to the other,
in one go from its first pixel on.
-/

namespace Allwinner.Camera

open Library (System)

-- ---------------------------------------------------------------------------
-- Bytes and pixels
-- ---------------------------------------------------------------------------

/-- Memory from some address on, by bytes. -/
abbrev Bytes := Nat → BitVec 8

/-- The pixel at index `k`, 4 bytes each. -/
def Bytes.pixel (m : Bytes) (k : Nat) : BitVec 32 :=
  m (4 * k + 3) ++ m (4 * k + 2) ++ m (4 * k + 1) ++ m (4 * k)

def Bytes.ofPixels (p : Nat → BitVec 32) : Bytes := fun i => (p (i / 4)).extractLsb' (8 * (i % 4)) 8

/-- `n` bytes of `src` are copied to offset `dst`. -/
def Bytes.copy (m : Bytes) (dst : Nat) (src : Bytes) (n : Nat) : Bytes :=
  fun i => if dst ≤ i ∧ i < dst + n then src (i - dst) else m i

-- ---------------------------------------------------------------------------
-- The driver
-- ---------------------------------------------------------------------------

abbrev MAX_WIDTH : Nat := 1280
abbrev MAX_HEIGHT : Nat := 720
abbrev MIN_WIDTH : Nat := 160
abbrev MIN_HEIGHT : Nat := 120

/-- `lx_user_config_t`, as `_update_config` leaves it. -/
structure Config where
  width : BitVec 32
  height : BitVec 32
  rotate : Bool
  convert : Bool
  gray : Bool
  skipFrames : Nat := 0
  width_le : width.toNat ≤ MAX_WIDTH
  height_le : height.toNat ≤ MAX_HEIGHT
  le_width : MIN_WIDTH ≤ width.toNat
  le_height : MIN_HEIGHT ≤ height.toNat

namespace Config

variable (cfg : Config)

def pixels : Nat := cfg.width.toNat * cfg.height.toNat

end Config

/-- A captured `Buffer`. It has room for the three planes of the picture. -/
structure Buffer (cfg : Config) where
  base : Bytes
  size : Nat
  planes : cfg.pixels + cfg.pixels / 2 ≤ size

/-- The area `create_gui` requests for the framebuffer. -/
structure Area where
  width : Nat
  height : Nat

/-- `create_gui`. -/
def createGui (cfg : Config) : Area :=
  if cfg.rotate then ⟨cfg.height.toNat, (cfg.width * 2).toNat⟩ else ⟨(cfg.width * 2).toNat, cfg.height.toNat⟩

/-- `genode_gui_view`. -/
structure View where
  x : Int
  y : Int
  width : Nat
  height : Nat

/-- `_gui_set_view`. -/
def guiSetView (cfg : Config) (viewFlip : Bool) : View where
  x := if viewFlip then 0 else if cfg.rotate then 0 else (-cfg.width).toInt
  y := if viewFlip then 0 else if cfg.rotate then (-cfg.width).toInt else 0
  width := if cfg.rotate then cfg.height.toNat else cfg.width.toNat
  height := if cfg.rotate then cfg.width.toNat else cfg.height.toNat

/-- Where `_gui_show` paints, and what. -/
structure Painting where
  start : Nat
  size : Nat
  bytes : Bytes

/-- `_convert_buffer` after the conversion, or after the copy in its place; `yuv420` is the picture
`yuv420_abgr_std` makes of the planes, and `fbSize` the size of the framebuffer. -/
def convertBuffer (yuv420 : Config → Bytes → Nat → BitVec 32) (cfg : Config) (fbSize : Nat) (b : Buffer cfg)
    (buffer : Bytes) : Bytes :=
  if cfg.convert then buffer.copy 0 (.ofPixels (yuv420 cfg b.base)) (4 * cfg.pixels)
  else buffer.copy 0 b.base (if b.size > fbSize then fbSize else b.size)

/-- The pixels the rotation writes, one after the other. -/
def rotated (writes : List (Write (BitVec 32))) : Bytes := .ofPixels fun k => (writes[k]?.map Prod.snd).getD 0

structure State where
  /-- the framebuffer -/
  fb : Bytes
  /-- `_convert_buffer` -/
  buffer : Bytes := fun _ => 0
  viewFlip : Bool := true
  skipCount : Nat := 0
  /-- what the view displays -/
  view : View

section Driver

variable (yuv420 : Config → Bytes → Nat → BitVec 32) (cfg : Config)

/-- `_mode.num_bytes()`. -/
def Area.numBytes (a : Area) : Nat := a.width * a.height * 4

/-- `_gui_show`, with the `_convert_buffer` it leaves. -/
def guiShow (viewFlip : Bool) (b : Buffer cfg) (buffer : Bytes) : Painting × Bytes :=
  let size := (createGui cfg).numBytes
  let start := if viewFlip then 4 * cfg.pixels else 0
  -- fast-path for raw access
  if !cfg.convert && !cfg.rotate then (⟨start, if b.size > size then size else b.size, b.base⟩, buffer)
  -- fast-path for grayish rotate
  else if cfg.convert && cfg.rotate && cfg.gray then
    (⟨start, 4 * cfg.pixels, rotated (rotateYAsGray b.base cfg.width cfg.height)⟩, buffer)
  else
    let buffer := convertBuffer yuv420 cfg size b buffer
    if cfg.rotate then (⟨start, 4 * cfg.pixels, rotated (rotatePixels buffer.pixel cfg.width cfg.height)⟩, buffer)
    else (⟨start, 4 * cfg.pixels, buffer⟩, buffer)

/-- `gui_display_image`. -/
def guiDisplayImage (s : State) (b : Buffer cfg) : State :=
  let view := guiSetView cfg s.viewFlip
  let (p, buffer) := guiShow yuv420 cfg s.viewFlip b s.buffer
  { s with view, fb := s.fb.copy p.start p.bytes p.size, buffer }

/-- One round of `capture_task_function`. -/
def captureTask : System State (Buffer cfg) Unit where
  step s b :=
    let s :=
      if s.skipCount ≥ cfg.skipFrames then
        { guiDisplayImage yuv420 cfg s b with viewFlip := !s.viewFlip, skipCount := 0 }
      else s
    ({ s with skipCount := s.skipCount + 1 }, [])

end Driver

-- ---------------------------------------------------------------------------
-- What double buffering means
-- ---------------------------------------------------------------------------

/-- The index of the pixel that the view displays at `(x, y)`. -/
def View.index (v : View) (a : Area) (x y : Nat) : Int := (y - v.y) * a.width + (x - v.x)

def View.Displays (v : View) (a : Area) (k : Nat) : Prop :=
  ∃ x < v.width, ∃ y < v.height, v.index a x y = k

/-- The bytes painted are inside the framebuffer and not of displayed pixels. -/
def Painting.Placed (p : Painting) (a : Area) (v : View) : Prop :=
  ∀ i < p.size, p.start + i < a.numBytes ∧ ¬ v.Displays a ((p.start + i) / 4)

/-- The view displays the image, as far as this has pixels. -/
def View.Shows (v : View) (a : Area) (fb : Bytes) (image : (x y : Nat) → Option (BitVec 32)) : Prop :=
  ∀ x < v.width, ∀ y < v.height, ∀ c ∈ image x y, fb.pixel (v.index a x y).toNat = c

section Image

variable (yuv420 : Config → Bytes → Nat → BitVec 32) (cfg : Config)

/-- Pixel `k` of the captured picture, unless the buffer ends before. -/
def capturedPixel (b : Buffer cfg) (k : Nat) : Option (BitVec 32) :=
  if cfg.convert then some (if cfg.rotate && cfg.gray then abgr (b.base k) else yuv420 cfg b.base k)
  else if 4 * (k + 1) ≤ b.size then some (b.base.pixel k)
  else none

/-- The picture, rotated counter-clockwise if the configuration says so. -/
def image (b : Buffer cfg) (x y : Nat) : Option (BitVec 32) :=
  if cfg.rotate then capturedPixel yuv420 cfg b (x * cfg.width.toNat + (cfg.width.toNat - 1 - y))
  else capturedPixel yuv420 cfg b (y * cfg.width.toNat + x)

/-- The picture that is painted, whatever the rotation made of it. -/
def paintedImage (s : State) (b : Buffer cfg) (x y : Nat) : Option (BitVec 32) :=
  some ((guiShow yuv420 cfg s.viewFlip b s.buffer).1.bytes.pixel (y * (guiSetView cfg s.viewFlip).width + x))

/-- A frame is painted where the view does not display it, and the view displays it once it
flips. -/
def DoubleBuffers (image : State → Buffer cfg → (x y : Nat) → Option (BitVec 32)) (s : State)
    (b : Buffer cfg) : Prop :=
  s.skipCount ≥ cfg.skipFrames →
    (guiShow yuv420 cfg s.viewFlip b s.buffer).1.Placed (createGui cfg) (guiSetView cfg s.viewFlip) ∧
    (guiSetView cfg !s.viewFlip).Shows (createGui cfg) (guiDisplayImage yuv420 cfg s b).fb (image s b)

/-- What the rotation reads at index `k`. -/
def readPixel (s : State) (b : Buffer cfg) (k : Nat) : BitVec 32 :=
  if cfg.convert && cfg.gray then abgr (b.base k)
  else (convertBuffer yuv420 cfg (createGui cfg).numBytes b s.buffer).pixel k

/-- The rotation reads the same from the pixel behind. -/
def Unshifted (s : State) (b : Buffer cfg) : Prop :=
  ∀ k < cfg.pixels, ∀ c ∈ capturedPixel yuv420 cfg b k, readPixel yuv420 cfg s b (k + 1) = c

end Image

-- ---------------------------------------------------------------------------
-- Where things are
-- ---------------------------------------------------------------------------

namespace Bytes

variable {m src : Bytes} {p : Nat → BitVec 32} {k n o : Nat}

theorem pixel_ofPixels : (ofPixels p).pixel k = p k := by
  have hbyte : ∀ j < 4, (4 * k + j) / 4 = k ∧ (4 * k + j) % 4 = j := by omega
  have h0 := hbyte 0 (by omega)
  have h1 := hbyte 1 (by omega)
  have h2 := hbyte 2 (by omega)
  have h3 := hbyte 3 (by omega)
  simp only [Nat.add_zero] at h0
  simp only [pixel, ofPixels, h0, h1, h2, h3]
  rw [BitVec.extractLsb'_append_extractLsb'_eq_extractLsb' (by rfl),
    BitVec.extractLsb'_append_extractLsb'_eq_extractLsb' (by rfl),
    BitVec.extractLsb'_append_extractLsb'_eq_extractLsb' (by rfl)]
  exact BitVec.extractLsb'_eq_self

theorem pixel_copy (hk : k < n) : (m.copy (4 * o) src (4 * n)).pixel (o + k) = src.pixel k := by
  have hbyte : ∀ j < 4, m.copy (4 * o) src (4 * n) (4 * (o + k) + j) = src (4 * k + j) := by
    intro j hj
    have hindex : 4 * (o + k) + j - 4 * o = 4 * k + j := by omega
    rw [copy, if_pos (by omega), hindex]
  have h0 := hbyte 0 (by omega)
  simp only [Nat.add_zero] at h0
  simp only [pixel, h0, hbyte 1 (by omega), hbyte 2 (by omega), hbyte 3 (by omega)]

end Bytes

section Geometry

variable {yuv420 : Config → Bytes → Nat → BitVec 32} {cfg : Config} {viewFlip : Bool} {b : Buffer cfg}
  {s : State} {x y : Nat}

namespace Config

theorem width_bounds (cfg : Config) : 160 ≤ cfg.width.toNat ∧ cfg.width.toNat ≤ 1280 :=
  ⟨cfg.le_width, cfg.width_le⟩

theorem toNat_width_mul_two (cfg : Config) : (cfg.width * 2).toNat = cfg.width.toNat * 2 := by
  have hwidth := cfg.width_bounds
  rw [BitVec.toNat_mul, show (2 : BitVec 32).toNat = 2 from rfl]
  exact Nat.mod_eq_of_lt (by omega)

theorem toInt_neg_width (cfg : Config) : (-cfg.width).toInt = -(cfg.width.toNat : Int) := by
  have hwidth := cfg.width_bounds
  have hneg : (-cfg.width).toNat = 2 ^ 32 - cfg.width.toNat := by
    rw [BitVec.toNat_neg]
    exact Nat.mod_eq_of_lt (by omega)
  rw [BitVec.toInt_eq_toNat_cond, hneg]
  split <;> omega

theorem pixels_eq (cfg : Config) : cfg.height.toNat * cfg.width.toNat = cfg.pixels := Nat.mul_comm _ _

/-- The first pixel of the buffer that is displayed, and painted once the view flipped. -/
def displayStart (cfg : Config) (viewFlip : Bool) : Nat := if viewFlip then 0 else cfg.pixels

end Config

theorem index_rotate (hrotate : cfg.rotate = true) :
    (guiSetView cfg viewFlip).index (createGui cfg) x y =
      (cfg.displayStart viewFlip + (y * cfg.height.toNat + x) : Nat) := by
  have hpixels := congrArg (Nat.cast (R := Int)) cfg.pixels_eq
  cases viewFlip with
  | true => simp [View.index, guiSetView, createGui, hrotate, Config.displayStart]
  | false =>
    simp only [View.index, guiSetView, createGui, hrotate, if_true, Bool.false_eq_true, if_false,
      cfg.toInt_neg_width, Config.displayStart, Int.sub_neg, Int.sub_zero, Int.add_mul]
    push_cast at hpixels ⊢
    rw [← hpixels, Int.mul_comm (cfg.width.toNat : Int)]
    omega

/-- Rotated pictures are painted pixel by pixel, each read from behind its place. -/
theorem guiShow_rotate (yuv420 : Config → Bytes → Nat → BitVec 32) (viewFlip : Bool) (b : Buffer cfg)
    (s : State) (hrotate : cfg.rotate = true) :
    (guiShow yuv420 cfg viewFlip b s.buffer).1.start = 4 * cfg.displayStart (!viewFlip) ∧
    (guiShow yuv420 cfg viewFlip b s.buffer).1.size = 4 * cfg.pixels ∧
    ∀ y < cfg.width.toNat, ∀ x < cfg.height.toNat,
      (guiShow yuv420 cfg viewFlip b s.buffer).1.bytes.pixel (y * cfg.height.toNat + x) =
        readPixel yuv420 cfg s b (cfg.width.toNat - y + x * cfg.width.toNat) := by
  have hstart : (if viewFlip = true then 4 * cfg.pixels else 0) = 4 * cfg.displayStart (!viewFlip) := by
    cases viewFlip <;> simp [Config.displayStart]
  have hoffset : ∀ x < cfg.height.toNat, x * cfg.width.toNat % 2 ^ 32 = x * cfg.width.toNat := by
    intro x hx
    have hmul : x * cfg.width.toNat ≤ 720 * 1280 :=
      Nat.mul_le_mul (Nat.le_of_lt (Nat.lt_of_lt_of_le hx cfg.height_le)) cfg.width_le
    exact Nat.mod_eq_of_lt (by omega)
  unfold guiShow readPixel
  simp only [hrotate, Bool.not_true, Bool.and_false, Bool.false_eq_true, if_false, Bool.and_true, if_true]
  cases hgray : cfg.convert && cfg.gray with
  | true =>
    refine ⟨hstart, rfl, fun y hy x hx => ?_⟩
    simp only [if_true, rotated, Bytes.pixel_ofPixels, rotateYAsGray, getElem?_rotate hy hx, hoffset x hx,
      Option.map_some, Option.getD_some]
  | false =>
    refine ⟨hstart, rfl, fun y hy x hx => ?_⟩
    simp only [Bool.false_eq_true, if_false, rotated, Bytes.pixel_ofPixels, rotatePixels,
      getElem?_rotate hy hx, hoffset x hx, Option.map_some, Option.getD_some, id]

theorem placed_rotate (hrotate : cfg.rotate = true) :
    (guiShow yuv420 cfg viewFlip b s.buffer).1.Placed (createGui cfg) (guiSetView cfg viewFlip) := by
  obtain ⟨hstart, hsize, -⟩ := guiShow_rotate yuv420 viewFlip b s hrotate
  have hbytes : (createGui cfg).numBytes = 8 * cfg.pixels := by
    simp only [createGui, hrotate, if_true, Area.numBytes, cfg.toNat_width_mul_two, ← cfg.pixels_eq]
    rw [← Nat.mul_assoc]
    omega
  intro i hi
  rw [hsize] at hi
  rw [hstart, hbytes]
  refine ⟨?_, ?_⟩
  · cases viewFlip <;> simp [Config.displayStart] <;> omega
  · rintro ⟨x, hx, y, hy, hindex⟩
    have hlt : y * cfg.height.toNat + x < cfg.height.toNat * cfg.width.toNat := by
      simp only [guiSetView, hrotate, if_true] at hx hy
      exact Library.Raster.index_lt hx hy
    rw [cfg.pixels_eq] at hlt
    rw [index_rotate hrotate, Int.ofNat_inj] at hindex
    cases viewFlip <;> simp [Config.displayStart] at hindex <;> omega

/-- The view that flips next displays what was painted. -/
theorem shows_rotate (hrotate : cfg.rotate = true) (image : (x y : Nat) → Option (BitVec 32)) :
    (guiSetView cfg !s.viewFlip).Shows (createGui cfg) (guiDisplayImage yuv420 cfg s b).fb image ↔
      ∀ x < cfg.height.toNat, ∀ y < cfg.width.toNat, ∀ c ∈ image x y,
        readPixel yuv420 cfg s b (cfg.width.toNat - y + x * cfg.width.toNat) = c := by
  obtain ⟨hstart, hsize, hpixel⟩ := guiShow_rotate yuv420 s.viewFlip b s hrotate
  have hview : (guiSetView cfg !s.viewFlip).width = cfg.height.toNat ∧
      (guiSetView cfg !s.viewFlip).height = cfg.width.toNat := by simp [guiSetView, hrotate]
  have hfb : ∀ x < cfg.height.toNat, ∀ y < cfg.width.toNat,
      (guiDisplayImage yuv420 cfg s b).fb.pixel
          ((guiSetView cfg !s.viewFlip).index (createGui cfg) x y).toNat =
        readPixel yuv420 cfg s b (cfg.width.toNat - y + x * cfg.width.toNat) := by
    intro x hx y hy
    have hlt : y * cfg.height.toNat + x < cfg.pixels := cfg.pixels_eq ▸ Library.Raster.index_lt hx hy
    rw [index_rotate hrotate, Int.toNat_natCast, ← hpixel y hy x hx]
    simp only [guiDisplayImage, hstart, hsize]
    exact Bytes.pixel_copy hlt
  unfold View.Shows
  rw [hview.1, hview.2]
  exact forall₂_congr fun x hx => forall₂_congr fun y hy => by rw [hfb x hx y hy]

/-- The rotated picture is as it should be if the shift of the rotation does not show. -/
theorem image_rotate_iff (hrotate : cfg.rotate = true) :
    (∀ x < cfg.height.toNat, ∀ y < cfg.width.toNat, ∀ c ∈ image yuv420 cfg b x y,
      readPixel yuv420 cfg s b (cfg.width.toNat - y + x * cfg.width.toNat) = c) ↔
    Unshifted yuv420 cfg s b := by
  have hwidth := cfg.width_bounds
  rw [Unshifted, Config.pixels, ← Library.Raster.forall_index]
  refine forall₂_congr fun x hx => ⟨fun h column hcolumn c hc => ?_, fun h y hy c hc => ?_⟩
  · have hy : cfg.width.toNat - 1 - (cfg.width.toNat - 1 - column) = column := by omega
    have hread : cfg.width.toNat - (cfg.width.toNat - 1 - column) + x * cfg.width.toNat =
        x * cfg.width.toNat + column + 1 := by omega
    have hpixel := h (cfg.width.toNat - 1 - column) (by omega) c
    rw [image, if_pos hrotate, hy, hread] at hpixel
    exact hpixel hc
  · have hread : x * cfg.width.toNat + (cfg.width.toNat - 1 - y) + 1 =
        cfg.width.toNat - y + x * cfg.width.toNat := by omega
    rw [image, if_pos hrotate] at hc
    rw [← hread]
    exact h _ (by omega) c hc

/-- The size of what is painted is more than two rows without rotation, too. -/
theorem guiShow_unrotated (yuv420 : Config → Bytes → Nat → BitVec 32) (viewFlip : Bool) (b : Buffer cfg)
    (s : State) (hrotate : cfg.rotate = false) :
    (guiShow yuv420 cfg viewFlip b s.buffer).1.start = 4 * cfg.displayStart (!viewFlip) ∧
      8 * cfg.width.toNat ≤ (guiShow yuv420 cfg viewFlip b s.buffer).1.size := by
  have hstart : (if viewFlip = true then 4 * cfg.pixels else 0) = 4 * cfg.displayStart (!viewFlip) := by
    cases viewFlip <;> simp [Config.displayStart]
  have hpixels : cfg.width.toNat * 120 ≤ cfg.pixels := Nat.mul_le_mul_left _ cfg.le_height
  have hplanes := b.planes
  unfold guiShow
  simp only [hrotate, Bool.not_false, Bool.and_true, Bool.and_false, Bool.false_and, Bool.false_eq_true, if_false]
  cases cfg.convert with
  | true => exact ⟨hstart, show _ ≤ 4 * cfg.pixels by omega⟩
  | false =>
    have hbytes : (createGui cfg).numBytes = 8 * cfg.pixels := by
      simp only [createGui, hrotate, Bool.false_eq_true, if_false, Area.numBytes, cfg.toNat_width_mul_two,
        Config.pixels]
      rw [Nat.mul_right_comm cfg.width.toNat 2]
      omega
    refine ⟨hstart, ?_⟩
    simp only [Bool.not_false, if_true, hbytes]
    split <;> omega

/-- Without rotation the painting runs over the rows, and so over displayed pixels. -/
theorem not_placed_unrotated (hrotate : cfg.rotate = false) :
    ¬ (guiShow yuv420 cfg viewFlip b s.buffer).1.Placed (createGui cfg) (guiSetView cfg viewFlip) := by
  obtain ⟨hstart, hsize⟩ := guiShow_unrotated yuv420 viewFlip b s hrotate
  have hwidth := cfg.width_bounds
  have hheight : 120 ≤ cfg.height.toNat := cfg.le_height
  intro hplaced
  cases viewFlip with
  | false =>
    -- the second half of the first row is displayed
    refine (hplaced (4 * cfg.width.toNat) (by omega)).2 ⟨0, ?_, 0, ?_, ?_⟩
    · simp only [guiSetView, hrotate, Bool.false_eq_true, if_false]
      omega
    · simp only [guiSetView, hrotate, Bool.false_eq_true, if_false]
      omega
    · rw [hstart]
      simp [View.index, guiSetView, createGui, hrotate, cfg.toInt_neg_width, Config.displayStart]
  | true =>
    -- the first half of the row at half the height is displayed
    have hrow : cfg.pixels + cfg.height.toNat % 2 * cfg.width.toNat =
        (cfg.height.toNat + 1) / 2 * (cfg.width.toNat * 2) :=
      calc cfg.pixels + cfg.height.toNat % 2 * cfg.width.toNat
          = (cfg.height.toNat + cfg.height.toNat % 2) * cfg.width.toNat := by
            rw [Nat.add_mul, ← cfg.pixels_eq]
        _ = ((cfg.height.toNat + 1) / 2 * 2) * cfg.width.toNat := by congr 1; omega
        _ = (cfg.height.toNat + 1) / 2 * (cfg.width.toNat * 2) := by rw [Nat.mul_assoc, Nat.mul_comm 2]
    have hodd : cfg.height.toNat % 2 * cfg.width.toNat ≤ 1 * cfg.width.toNat :=
      Nat.mul_le_mul_right _ (by omega)
    refine (hplaced (4 * (cfg.height.toNat % 2 * cfg.width.toNat)) (by omega)).2
      ⟨0, ?_, (cfg.height.toNat + 1) / 2, ?_, ?_⟩
    · simp only [guiSetView, hrotate, Bool.false_eq_true, if_false]
      omega
    · simp only [guiSetView, hrotate, Bool.false_eq_true, if_false]
      omega
    · have hindex : (4 * cfg.pixels + 4 * (cfg.height.toNat % 2 * cfg.width.toNat)) / 4 =
          (cfg.height.toNat + 1) / 2 * (cfg.width.toNat * 2) := by omega
      rw [hstart]
      simp only [Config.displayStart, Bool.not_true, Bool.false_eq_true, if_false, hindex, View.index,
        guiSetView, createGui, hrotate, if_true, cfg.toNat_width_mul_two]
      simp

theorem doubleBuffers_iff {image : State → Buffer cfg → (x y : Nat) → Option (BitVec 32)} :
    DoubleBuffers yuv420 cfg image s b ↔ (s.skipCount ≥ cfg.skipFrames → cfg.rotate = true ∧
      ∀ x < cfg.height.toNat, ∀ y < cfg.width.toNat, ∀ c ∈ image s b x y,
        readPixel yuv420 cfg s b (cfg.width.toNat - y + x * cfg.width.toNat) = c) := by
  refine forall_congr' fun _ => ?_
  cases hrotate : cfg.rotate with
  | true => rw [shows_rotate hrotate, and_iff_right (placed_rotate hrotate), and_iff_right rfl]
  | false => exact iff_of_false (fun h => not_placed_unrotated hrotate h.1) (fun h => by cases h.1)

/-- Frames are double-buffered if they are rotated, and the shift of the rotation does not
show; whatever the rotation makes of them is double-buffered if they are rotated. -/
theorem captureTask_doubleBuffers_iff (yuv420 : Config → Bytes → Nat → BitVec 32) (cfg : Config) (s : State)
    (frames : List (Buffer cfg)) :
    ((captureTask yuv420 cfg).Along (DoubleBuffers yuv420 cfg fun _ => image yuv420 cfg) s frames ↔
      (captureTask yuv420 cfg).Along
        (fun s b => s.skipCount ≥ cfg.skipFrames → cfg.rotate = true ∧ Unshifted yuv420 cfg s b) s frames) ∧
    ((captureTask yuv420 cfg).Along (DoubleBuffers yuv420 cfg (paintedImage yuv420 cfg)) s frames ↔
      (captureTask yuv420 cfg).Along (fun s _ => s.skipCount ≥ cfg.skipFrames → cfg.rotate = true) s frames) := by
  constructor
  · refine System.along_congr (I := fun _ => True) (fun s b _ => ?_) (fun _ _ _ _ => trivial) trivial
    rw [doubleBuffers_iff]
    exact forall_congr' fun _ => and_congr_right image_rotate_iff
  · refine System.along_congr (I := fun _ => True) (fun s b _ => ?_) (fun _ _ _ _ => trivial) trivial
    rw [doubleBuffers_iff]
    refine forall_congr' fun _ => ⟨And.left, fun hrotate => ⟨hrotate, fun x hx y hy c hc => ?_⟩⟩
    have hwidth : (guiSetView cfg s.viewFlip).width = cfg.height.toNat := by simp [guiSetView, hrotate]
    rw [paintedImage, hwidth, Option.mem_some_iff] at hc
    rw [← hc, (guiShow_rotate yuv420 s.viewFlip b s hrotate).2.2 y hy x hx]

end Geometry

-- ---------------------------------------------------------------------------
-- A small picture
-- ---------------------------------------------------------------------------

def smallest (rotate : Bool) : Config where
  width := 160
  height := 120
  rotate := rotate
  convert := true
  gray := true
  width_le := by decide
  height_le := by decide
  le_width := by decide
  le_height := by decide

/-- Black, but for the first pixel of the second row. -/
def dotted (rotate : Bool) : Buffer (smallest rotate) where
  base := fun i => if i = 160 then 255 else 0
  size := 28800
  planes := show 160 * 120 + 160 * 120 / 2 ≤ 28800 by decide

def fresh : State where
  fb := fun _ => 0
  view := ⟨0, 0, 0, 0⟩

/-- Without rotation the first frame is painted over the display, and with it the dot comes up in
the row above. -/
theorem frame_not_doubleBuffered :
    ¬ (captureTask (fun _ _ _ => 0) (smallest false)).Along
        (DoubleBuffers (fun _ _ _ => 0) (smallest false) fun _ => image (fun _ _ _ => 0) (smallest false))
        fresh [dotted false] ∧
    ¬ (captureTask (fun _ _ _ => 0) (smallest true)).Along
        (DoubleBuffers (fun _ _ _ => 0) (smallest true) fun _ => image (fun _ _ _ => 0) (smallest true))
        fresh [dotted true] := by
  refine ⟨fun h => ?_, fun h => ?_⟩
  · cases (doubleBuffers_iff.mp h.1 (by decide)).1
  · have hunshifted := (image_rotate_iff rfl).mp (doubleBuffers_iff.mp h.1 (by decide)).2
    have hdot := hunshifted 159 (by decide) _ rfl
    revert hdot
    decide

end Allwinner.Camera
