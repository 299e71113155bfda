import Mathlib.Data.List.Basic
import Mathlib.Algebra.GroupWithZero.Nat
import Allwinner.Library.Runs

/-!
# The input device of the touch driver

The driver of the touchscreen reports absolute values, grouped by slots, one slot a
finger. A frame of them is buffered by `input_event`, and `input_mt_sync_frame` turns it
into touch and release events.
-/

namespace Allwinner.Touch

open Library (System)

-- ---------------------------------------------------------------------------
-- Devices
-- ---------------------------------------------------------------------------

abbrev EV_KEY : Nat := 0x01
abbrev EV_ABS : Nat := 0x03

abbrev ABS_MT_SLOT : Nat := 0x2f
abbrev ABS_MT_FIRST : Nat := 0x30
abbrev ABS_MT_WIDTH_MAJOR : Nat := 0x32
abbrev ABS_MT_POSITION_X : Nat := 0x35
abbrev ABS_MT_POSITION_Y : Nat := 0x36
abbrev ABS_MT_TOOL_Y : Nat := 0x3d

/-- `input_value`. -/
structure InputValue where
  type : Nat
  code : Nat
  value : Int
  deriving DecidableEq, Repr

/-- `input_mt_slot`. -/
structure MtSlot where
  abs : Nat → Int := fun _ => 0
  key : BitVec 32 := 0

/-- `input_absinfo`. -/
structure AbsInfo where
  value : Int := 0
  minimum : Int := 0
  maximum : Int := 0
  fuzz : Int := 0
  flat : Int := 0
  resolution : Int := 0

/-- `input_dev` and its `input_mt`. -/
structure InputDev where
  evbit : Nat → Bool := fun _ => false
  keybit : Nat → Bool := fun _ => false
  absbit : Nat → Bool := fun _ => false
  absinfo : Option (Nat → AbsInfo) := none
  maxVals : Nat := 256
  vals : List InputValue := []
  numSlots : Int := 0
  slots : Nat → MtSlot := fun _ => {}

/-- `devm_input_allocate_device`. -/
def devmInputAllocateDevice : InputDev := {}

/-- `input_mt_init_slots`; the number of slots is kept as an `int`. -/
def inputMtInitSlots (dev : InputDev) (numSlots : BitVec 32) : InputDev :=
  { dev with numSlots := numSlots.toInt, slots := fun _ => {} }

/-- `input_event`. -/
def inputEvent (dev : InputDev) (type code : Nat) (value : Int) : InputDev :=
  if dev.vals.length = dev.maxVals then dev
  -- ignore events other than absolute motion
  else if type ≠ EV_ABS then dev
  else { dev with vals := dev.vals ++ [{ type, code := code % 2 ^ 16, value }] }

-- ---------------------------------------------------------------------------
-- `event_generator`
-- ---------------------------------------------------------------------------

/-- at least one value changed -/
def MT_KEY_CHANGED_FLAG : BitVec 32 := 1
/-- finger is touching the screen -/
def MT_KEY_PRESENT_FLAG : BitVec 32 := 2
/-- finger is featured in current frame -/
def MT_KEY_UPDATED_FLAG : BitVec 32 := 4

inductive TouchEvent where
  | touch (finger : Nat) (xpos ypos width : Int)
  | release (finger : Nat)
  deriving DecidableEq, Repr

namespace MtSlot

def clearFlags (slot : MtSlot) : MtSlot :=
  { slot with key := slot.key &&& ~~~MT_KEY_CHANGED_FLAG &&& ~~~MT_KEY_UPDATED_FLAG }

/-- A value of a slot, for a code from `ABS_MT_FIRST` to `ABS_MT_TOOL_Y`. -/
def update (slot : MtSlot) (code : Nat) (value : Int) : MtSlot :=
  let key := slot.key ||| MT_KEY_UPDATED_FLAG
  let key := if slot.abs (code - ABS_MT_FIRST) ≠ value then key ||| MT_KEY_CHANGED_FLAG else key
  { abs := Function.update slot.abs (code - ABS_MT_FIRST) value, key }

def touch (slot : MtSlot) (i : Nat) : TouchEvent :=
  .touch i (slot.abs (ABS_MT_POSITION_X - ABS_MT_FIRST)) (slot.abs (ABS_MT_POSITION_Y - ABS_MT_FIRST))
    (slot.abs (ABS_MT_WIDTH_MAJOR - ABS_MT_FIRST))

/-- "Detect press, release, motion" -/
def detect (slot : MtSlot) (i : Nat) : MtSlot × List TouchEvent :=
  let present := slot.key &&& MT_KEY_PRESENT_FLAG ≠ 0
  let changed := slot.key &&& MT_KEY_CHANGED_FLAG ≠ 0
  let updated := slot.key &&& MT_KEY_UPDATED_FLAG ≠ 0
  let newFinger := ¬ present ∧ updated
  let movedFinger := present ∧ updated ∧ changed
  let (slot, events) :=
    if newFinger ∨ movedFinger then
      ({ slot with key := slot.key ||| MT_KEY_PRESENT_FLAG }, [slot.touch i])
    else (slot, [])
  if present ∧ ¬ updated then ({ slot with key := 0 }, events ++ [.release i]) else (slot, events)

end MtSlot

/-- A value of a slot the device has, and its code is one of a slot. -/
def Updates (numSlots currSlot : Int) (code : Nat) : Prop :=
  0 ≤ currSlot ∧ currSlot < numSlots ∧ ABS_MT_FIRST ≤ code ∧ code ≤ ABS_MT_TOOL_Y

instance : Decidable (Updates numSlots currSlot code) :=
  inferInstanceAs (Decidable (_ ∧ _ ∧ _ ∧ _))

/-- The slot that is current once `val` was read. -/
def InputValue.currSlot (val : InputValue) (currSlot : Int) : Int :=
  if val.code = ABS_MT_SLOT then val.value else currSlot

/-- "Update slots from captured input values" -/
def updateSlots (numSlots : Int) : (currSlot : Int) → (Nat → MtSlot) → List InputValue → Nat → MtSlot
  | _, slots, [] => slots
  | currSlot, slots, val :: vals =>
    if val.type ≠ EV_ABS then updateSlots numSlots currSlot slots vals
    else
      let currSlot := val.currSlot currSlot
      if Updates numSlots currSlot val.code then
        updateSlots numSlots currSlot
          (Function.update slots currSlot.toNat ((slots currSlot.toNat).update val.code val.value)) vals
      else updateSlots numSlots currSlot slots vals

/-- A loop over the slots, with what it submits. -/
def forSlots (f : MtSlot → Nat → MtSlot × List TouchEvent) (slots : Nat → MtSlot) :
    Nat → (Nat → MtSlot) × List TouchEvent
  | 0 => (slots, [])
  | i + 1 =>
    let (slots, events) := forSlots f slots i
    let (slot, more) := f (slots i) i
    (Function.update slots i slot, events ++ more)

/-- `event_generator`. -/
def eventGenerator (dev : InputDev) : InputDev × List TouchEvent :=
  let slots := (forSlots (fun slot _ => (slot.clearFlags, [])) dev.slots dev.numSlots.toNat).1
  let slots := updateSlots dev.numSlots (-1) slots dev.vals
  let (slots, events) := forSlots MtSlot.detect slots dev.numSlots.toNat
  ({ dev with slots, vals := [] }, events)

-- ---------------------------------------------------------------------------
-- Frames
-- ---------------------------------------------------------------------------

/-- A call of `input_event`. -/
structure Report where
  type : Nat
  code : Nat
  value : Int
  deriving DecidableEq, Repr

def InputDev.capture (dev : InputDev) (reports : List Report) : InputDev :=
  reports.foldl (fun dev r => inputEvent dev r.type r.code r.value) dev

/-- Calls of `input_event` followed by `input_mt_sync_frame`. -/
def device : System InputDev (List Report) TouchEvent := ⟨fun dev reports => eventGenerator (dev.capture reports)⟩

-- ---------------------------------------------------------------------------
-- What the loops do
-- ---------------------------------------------------------------------------

section Loops

variable {f : MtSlot → Nat → MtSlot × List TouchEvent} {slots : Nat → MtSlot} {n i : Nat} {dev : InputDev}
  {numSlots currSlot : Int} {vals : List InputValue} {reports : List Report}

theorem forSlots_slots : (forSlots f slots n).1 i = if i < n then (f (slots i) i).1 else slots i := by
  induction n generalizing i with
  | zero => rfl
  | succ n ih =>
    simp only [forSlots]
    by_cases hi : i = n
    · subst hi
      rw [Function.update_self, ih, if_neg (Nat.lt_irrefl i), if_pos (Nat.lt_succ_self i)]
    · rw [Function.update_of_ne hi, ih]
      simp only [Nat.lt_succ_iff_lt_or_eq, hi, or_false]

theorem forSlots_events : (forSlots f slots n).2 = (List.range n).flatMap fun i => (f (slots i) i).2 := by
  induction n with
  | zero => rfl
  | succ n ih =>
    have hlast : (forSlots f slots n).1 n = slots n := by
      rw [forSlots_slots, if_neg (Nat.lt_irrefl n)]
    simp [forSlots, ih, hlast, List.range_succ]

/-- The values for a slot: those after its number. -/
def valuesOf (numSlots : Int) (i : Nat) : (currSlot : Int) → List InputValue → List InputValue
  | _, [] => []
  | currSlot, val :: vals =>
    if val.type ≠ EV_ABS then valuesOf numSlots i currSlot vals
    else if Updates numSlots (val.currSlot currSlot) val.code ∧ val.currSlot currSlot = i then
      val :: valuesOf numSlots i (val.currSlot currSlot) vals
    else valuesOf numSlots i (val.currSlot currSlot) vals

/-- A slot is updated by its own values. -/
theorem updateSlots_apply : updateSlots numSlots currSlot slots vals i =
    (valuesOf numSlots i currSlot vals).foldl (fun slot val => slot.update val.code val.value) (slots i) := by
  induction vals generalizing currSlot slots with
  | nil => rfl
  | cons val vals ih =>
    simp only [updateSlots, valuesOf]
    split
    · exact ih
    · split
      · rename_i hupdates
        have hpos : 0 ≤ val.currSlot currSlot := hupdates.1
        by_cases hi : val.currSlot currSlot = i
        · rw [ih, if_pos ⟨hupdates, hi⟩]
          have hnat : (val.currSlot currSlot).toNat = i := by rw [hi, Int.toNat_natCast]
          rw [hnat, Function.update_self, List.foldl_cons]
        · have hne : i ≠ (val.currSlot currSlot).toNat := by omega
          rw [ih, if_neg (fun h => hi h.2), Function.update_of_ne hne]
      · rename_i hupdates
        rw [ih, if_neg (fun h => hupdates h.1)]

/-- What becomes of one slot in a frame. -/
def MtSlot.frame (slot : MtSlot) (vals : List InputValue) (i : Nat) : MtSlot × List TouchEvent :=
  (vals.foldl (fun slot val => slot.update val.code val.value) slot.clearFlags).detect i

theorem eventGenerator_slots (hi : i < dev.numSlots.toNat) : (eventGenerator dev).1.slots i =
    ((dev.slots i).frame (valuesOf dev.numSlots i (-1) dev.vals) i).1 := by
  simp only [eventGenerator, forSlots_slots, updateSlots_apply, if_pos hi, MtSlot.frame]

theorem eventGenerator_events : (eventGenerator dev).2 =
    (List.range dev.numSlots.toNat).flatMap fun i =>
      ((dev.slots i).frame (valuesOf dev.numSlots i (-1) dev.vals) i).2 := by
  simp only [eventGenerator, forSlots_events, updateSlots_apply, forSlots_slots, MtSlot.frame]
  refine List.flatMap_congr fun i hi => ?_
  rw [if_pos (List.mem_range.mp hi)]

/-- What `input_event` makes of the reports of a frame, with room for `n` values. -/
def recorded (n : Nat) (reports : List Report) : List InputValue :=
  ((reports.filter fun r => r.type = EV_ABS).take n).map fun r =>
    { type := r.type, code := r.code % 2 ^ 16, value := r.value }

theorem capture_cons (r : Report) :
    dev.capture (r :: reports) = (inputEvent dev r.type r.code r.value).capture reports := rfl

theorem capture_eq (h : dev.vals.length ≤ dev.maxVals) : dev.capture reports =
    { dev with vals := dev.vals ++ recorded (dev.maxVals - dev.vals.length) reports } := by
  induction reports generalizing dev with
  | nil => simp [InputDev.capture, recorded]
  | cons r reports ih =>
    rw [capture_cons]
    unfold inputEvent
    split
    · rename_i hfull
      rw [ih h, hfull]
      simp [recorded]
    · rename_i hfree
      split
      · rename_i htype
        rw [ih h]
        simp [recorded, htype]
      · rename_i htype
        have htype : r.type = EV_ABS := not_not.mp htype
        have hroom : dev.maxVals - dev.vals.length = dev.maxVals - (dev.vals.length + 1) + 1 := by omega
        rw [ih (by simp only [List.length_append, List.length_singleton]; omega)]
        simp [recorded, htype, hroom]

end Loops

end Allwinner.Touch
