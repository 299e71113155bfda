import Allwinner.Touch.Input

/-!
# Array bounds of the input device

The device has two arrays: the slots at the end of its `input_mt`, allocated by
`input_mt_init_slots`, and the `absinfo` of the axes, allocated by
`input_alloc_absinfo`. The first gets one byte a slot, since the `sizeof` there is that
of a function, and the second a single element.
-/

namespace Allwinner.Touch

open Library (System)

/-- The sizes of `input_mt`, `input_mt_slot` and `input_absinfo`. The slots follow the
`input_mt`. -/
structure Sizes where
  mt : Nat
  mtSlot : Nat
  absinfo : Nat
  mtSlot_pos : 0 < mtSlot
  absinfo_pos : 0 < absinfo

/-- `sizeof` of a function in GNU C. -/
abbrev SIZEOF_FUNCTION : Nat := 1

/-- Element `i` of an array at `offset` ends within `bytes`. -/
def ElementInside (bytes offset size i : Nat) : Prop := offset + (i + 1) * size ≤ bytes

namespace Sizes

variable (sz : Sizes)

/-- `sizeof(*dev->mt) + num_slots*sizeof(input_mt_init_slots)`. -/
def mtBytes (numSlots : BitVec 32) : Nat := sz.mt + numSlots.toNat * SIZEOF_FUNCTION

/-- `sizeof(*dev->absinfo)`. -/
def absinfoBytes : Nat := sz.absinfo

def SlotInside (numSlots : BitVec 32) (i : Nat) : Prop := ElementInside (sz.mtBytes numSlots) sz.mt sz.mtSlot i

def AxisInside (axis : Nat) : Prop := ElementInside sz.absinfoBytes 0 sz.absinfo axis

end Sizes

-- ---------------------------------------------------------------------------
-- What is accessed
-- ---------------------------------------------------------------------------

/-- The slots that `updateSlots` accesses. -/
def updatedSlots (numSlots : Int) : (currSlot : Int) → List InputValue → List Nat
  | _, [] => []
  | currSlot, val :: vals =>
    if val.type ≠ EV_ABS then updatedSlots numSlots currSlot vals
    else
      let currSlot := val.currSlot currSlot
      if Updates numSlots currSlot val.code then currSlot.toNat :: updatedSlots numSlots currSlot vals
      else updatedSlots numSlots currSlot vals

/-- The slots that `event_generator` accesses in its three loops. -/
def InputDev.slotAccesses (dev : InputDev) : List Nat :=
  List.range dev.numSlots.toNat ++ updatedSlots dev.numSlots (-1) dev.vals ++ List.range dev.numSlots.toNat

/-- `input_alloc_absinfo`, where `alloc` tells whether there is memory. -/
def inputAllocAbsinfo (dev : InputDev) (alloc : Bool) : InputDev :=
  { dev with absinfo := if alloc then some fun _ => {} else none }

/-- `input_set_capability`. -/
def inputSetCapability (dev : InputDev) (alloc : Bool) (type code : Nat) : InputDev :=
  if type = EV_KEY then
    { dev with keybit := Function.update dev.keybit code true, evbit := Function.update dev.evbit type true }
  else if type = EV_ABS then
    let dev := inputAllocAbsinfo dev alloc
    if dev.absinfo.isNone then dev
    else { dev with
      absbit := Function.update dev.absbit code true, evbit := Function.update dev.evbit type true }
  else dev

/-- `input_copy_abs`, with the entries of the two arrays it accesses. -/
def inputCopyAbs (dst : InputDev) (alloc : Bool) (dstAxis : Nat) (src : InputDev) (srcAxis : Nat) :
    InputDev × List Nat :=
  -- "src must have EV_ABS and src_axis set"
  if !(src.evbit EV_ABS && src.absbit srcAxis) then (dst, [])
  else match src.absinfo with
    | none => (dst, [])
    | some srcInfo =>
      let dst := inputSetCapability dst alloc EV_ABS dstAxis
      match dst.absinfo with
      | none => (dst, [])
      | some dstInfo =>
        ({ dst with absinfo := some (Function.update dstInfo dstAxis (srcInfo srcAxis)) }, [srcAxis, dstAxis])

/-- The axis can be copied from the device. -/
def InputDev.hasAxis (dev : InputDev) (axis : Nat) : Bool :=
  dev.evbit EV_ABS && dev.absbit axis && dev.absinfo.isSome

-- ---------------------------------------------------------------------------
-- Whether it is inside
-- ---------------------------------------------------------------------------

section Laws

variable {sz : Sizes} {numSlots : BitVec 32} {dev dst src : InputDev} {alloc : Bool} {dstAxis srcAxis : Nat}
  {frames : List (List Report)} {reports : List Report}

theorem updatedSlots_lt {n currSlot : Int} {vals : List InputValue} :
    ∀ i ∈ updatedSlots n currSlot vals, i < n.toNat := by
  induction vals generalizing currSlot with
  | nil =>
    intro i hi
    cases hi
  | cons val vals ih =>
    simp only [updatedSlots]
    split
    · exact ih
    · split
      · rename_i hupdates
        intro i hi
        rcases List.mem_cons.mp hi with rfl | hi
        · have hpos := hupdates.1
          have hlt := hupdates.2.1
          omega
        · exact ih i hi
      · exact ih

theorem mem_slotAccesses {i : Nat} : i ∈ dev.slotAccesses ↔ i < dev.numSlots.toNat := by
  simp only [InputDev.slotAccesses, List.mem_append, List.mem_range]
  constructor
  · rintro ((hi | hi) | hi)
    · exact hi
    · exact updatedSlots_lt i hi
    · exact hi
  · exact .inr

theorem capture_numSlots : (dev.capture reports).numSlots = dev.numSlots := by
  induction reports generalizing dev with
  | nil => rfl
  | cons r reports ih =>
    rw [capture_cons, ih]
    unfold inputEvent
    split
    · rfl
    · split <;> rfl

theorem run_numSlots : (device.run dev frames).numSlots = dev.numSlots := by
  induction frames generalizing dev with
  | nil => rfl
  | cons reports frames ih =>
    rw [System.run_cons, ih]
    exact capture_numSlots

theorem slotInside_iff {i : Nat} : sz.SlotInside numSlots i ↔ (i + 1) * sz.mtSlot ≤ numSlots.toNat := by
  simp [Sizes.SlotInside, ElementInside, Sizes.mtBytes]

theorem axisInside_iff {axis : Nat} : sz.AxisInside axis ↔ axis = 0 := by
  have hpos := sz.absinfo_pos
  cases axis with
  | zero => simp [Sizes.AxisInside, ElementInside, Sizes.absinfoBytes]
  | succ axis =>
    have hlarge : sz.absinfo < (axis + 1 + 1) * sz.absinfo := by
      rw [Nat.succ_mul]
      exact Nat.lt_add_of_pos_left (Nat.mul_pos (Nat.succ_pos axis) hpos)
    simp only [Sizes.AxisInside, ElementInside, Sizes.absinfoBytes, Nat.zero_add, Nat.succ_ne_zero, iff_false,
      Nat.not_le]
    exact hlarge

/-- A count that is not positive as an `int` keeps all loops from running. -/
theorem slots_inside_iff :
    (∀ frames reports, ∀ i ∈ ((device.run (inputMtInitSlots dev numSlots) frames).capture reports).slotAccesses,
      sz.SlotInside numSlots i) ↔ numSlots.toInt ≤ 0 ∨ sz.mtSlot = 1 := by
  have hcount : ∀ frames reports,
      ((device.run (inputMtInitSlots dev numSlots) frames).capture reports).numSlots = numSlots.toInt := by
    intro frames reports
    rw [capture_numSlots, run_numSlots]
    rfl
  have hint := numSlots.toInt_eq_toNat_cond
  have hpos := sz.mtSlot_pos
  simp only [mem_slotAccesses, hcount, slotInside_iff]
  constructor
  · intro h
    by_contra hnot
    obtain ⟨hsome, hlarge⟩ := not_or.mp hnot
    -- the last slot
    have hlast := h [] [] (numSlots.toInt.toNat - 1) (by omega)
    have hn : numSlots.toInt.toNat - 1 + 1 = numSlots.toNat := by
      split at hint <;> omega
    rw [hn] at hlast
    have hdouble : numSlots.toNat * 2 ≤ numSlots.toNat * sz.mtSlot := Nat.mul_le_mul_left _ (by omega)
    omega
  · rintro (hnone | hone) - - i hi
    · omega
    · rw [hone, Nat.mul_one]
      split at hint <;> omega

theorem copy_accesses : (inputCopyAbs dst alloc dstAxis src srcAxis).2 =
    if src.hasAxis srcAxis && alloc then [srcAxis, dstAxis] else [] := by
  unfold inputCopyAbs InputDev.hasAxis inputSetCapability inputAllocAbsinfo
  cases src.evbit EV_ABS <;> cases src.absbit srcAxis <;> cases src.absinfo <;> cases alloc <;> rfl

theorem copy_inside_iff : (∀ axis ∈ (inputCopyAbs dst alloc dstAxis src srcAxis).2, sz.AxisInside axis) ↔
    (src.hasAxis srcAxis = true → alloc = true → srcAxis = 0 ∧ dstAxis = 0) := by
  rw [copy_accesses]
  cases src.hasAxis srcAxis <;> cases alloc <;> simp [axisInside_iff]

/-- All accesses are inside if there is no slot or a slot has one byte, and only axis 0 is ever
copied. -/
theorem accesses_inside_iff (sz : Sizes) (numSlots : BitVec 32) (dev dst src : InputDev) (alloc : Bool)
    (dstAxis srcAxis : Nat) :
    ((∀ frames reports, ∀ i ∈ ((device.run (inputMtInitSlots dev numSlots) frames).capture reports).slotAccesses,
        sz.SlotInside numSlots i) ∧
      ∀ axis ∈ (inputCopyAbs dst alloc dstAxis src srcAxis).2, sz.AxisInside axis) ↔
    (numSlots.toInt ≤ 0 ∨ sz.mtSlot = 1) ∧
      (src.hasAxis srcAxis = true → alloc = true → srcAxis = 0 ∧ dstAxis = 0) :=
  and_congr slots_inside_iff copy_inside_iff

end Laws

-- ---------------------------------------------------------------------------
-- The sizes of Linux
-- ---------------------------------------------------------------------------

def linux : Sizes where
  mt := 32
  mtSlot := 64
  absinfo := 24
  mtSlot_pos := by decide
  absinfo_pos := by decide

/-- A device with the axes of a touchscreen. -/
def withAxis (axis : Nat) : InputDev := inputSetCapability devmInputAllocateDevice true EV_ABS axis

/-- The first of five slots is beyond the memory, and so is the entry of the axis. -/
theorem accesses_outside :
    (0 ∈ ((device.run (inputMtInitSlots devmInputAllocateDevice 5) []).capture []).slotAccesses ∧
      ¬ linux.SlotInside 5 0) ∧
    ABS_MT_POSITION_X ∈ (inputCopyAbs devmInputAllocateDevice true ABS_MT_POSITION_X
      (withAxis ABS_MT_POSITION_X) ABS_MT_POSITION_X).2 ∧
    ¬ linux.AxisInside ABS_MT_POSITION_X := by
  refine ⟨⟨by decide, ?_⟩, by decide, ?_⟩
  · rw [slotInside_iff]
    decide
  · rw [axisInside_iff]
    decide

end Allwinner.Touch
