import Allwinner.Touch.Input

/-!
# Contacts of fingers

A finger touches the screen in the first frame with values for its slot, and leaves it in
the first frame without. In between it touches anew whenever a value changes. The three
flags of a slot amount to that, for any sequence of frames.
-/

namespace Allwinner.Touch

open Library (System)

-- ---------------------------------------------------------------------------
-- What the events of a finger should be
-- ---------------------------------------------------------------------------

def TouchEvent.finger : TouchEvent → Nat
  | .touch finger .. => finger
  | .release finger => finger

/-- The events of a finger: touches, each contact closed by a release. The flag tells
whether the last one is still going on. -/
inductive Contacts (i : Nat) : Bool → List TouchEvent → Prop
  | nil : Contacts i false []
  | touch : Contacts i b log → Contacts i true (log ++ [.touch i xpos ypos width])
  | release : Contacts i true log → Contacts i false (log ++ [.release i])

/-- The values of a slot after those in `vals`. -/
def latest (abs : Nat → Int) (vals : List InputValue) : Nat → Int :=
  vals.foldl (fun abs val => Function.update abs (val.code - ABS_MT_FIRST) val.value) abs

/-- One of the values differs from the one before it. -/
def changes : (Nat → Int) → List InputValue → Bool
  | _, [] => false
  | abs, val :: vals =>
    abs (val.code - ABS_MT_FIRST) ≠ val.value ||
      changes (Function.update abs (val.code - ABS_MT_FIRST) val.value) vals

/-- The touch of a finger at the values its frames left. -/
def touchAt (i : Nat) (frames : List (List InputValue)) : TouchEvent :=
  MtSlot.touch { abs := latest (fun _ => 0) frames.flatten } i

/-- The last frame featured the finger. -/
def touching (frames : List (List InputValue)) : Bool := frames.getLast?.any (· ≠ [])

/-- What a frame with the values `vals` for a finger gives rise to, after the frames
`pre`. -/
structure FingerFrame (i : Nat) (pre : List (List InputValue)) (vals : List InputValue)
    (events : List TouchEvent) : Prop where
  absent : touching pre = false → vals = [] → events = []
  released : touching pre = true → vals = [] → events = [.release i]
  pressed : touching pre = false → vals ≠ [] → events = [touchAt i (pre ++ [vals])]
  moved : touching pre = true → vals ≠ [] →
    events = if changes (latest (fun _ => 0) pre.flatten) vals then [touchAt i (pre ++ [vals])] else []

def start (numSlots : BitVec 32) : InputDev := inputMtInitSlots devmInputAllocateDevice numSlots

/-- The events of a finger over the frames are as they should be, where `values` are those
the reports of a frame come to. -/
structure WellFormedTouches (values : List Report → List InputValue) (numSlots : BitVec 32)
    (frames : List (List Report)) (i : Nat) : Prop where
  contacts : ∃ ongoing, Contacts i ongoing ((device.log (start numSlots) frames).filter (·.finger = i))
  frame : ∀ pre reports post, frames = pre ++ reports :: post →
    FingerFrame i (pre.map fun reports => valuesOf numSlots.toInt i (-1) (values reports))
      (valuesOf numSlots.toInt i (-1) (values reports))
      ((device.obs (device.run (start numSlots) pre) reports).filter (·.finger = i))

-- ---------------------------------------------------------------------------
-- One slot
-- ---------------------------------------------------------------------------

section Slot

variable {abs : Nat → Int} {changed present updated : Bool} {vals : List InputValue} {i : Nat}
  {pre : List (List InputValue)}

/-- The flags of a slot. -/
def keyOf (changed present updated : Bool) : BitVec 32 :=
  (if changed then MT_KEY_CHANGED_FLAG else 0) ||| (if present then MT_KEY_PRESENT_FLAG else 0) |||
    (if updated then MT_KEY_UPDATED_FLAG else 0)

theorem keyOf_cleared : ∀ changed present updated,
    keyOf changed present updated &&& ~~~MT_KEY_CHANGED_FLAG &&& ~~~MT_KEY_UPDATED_FLAG =
      keyOf false present false := by decide

@[simp] theorem keyOf_or_changed : ∀ changed present updated,
    keyOf changed present updated ||| MT_KEY_CHANGED_FLAG = keyOf true present updated := by decide

@[simp] theorem keyOf_or_present : ∀ changed present updated,
    keyOf changed present updated ||| MT_KEY_PRESENT_FLAG = keyOf changed true updated := by decide

@[simp] theorem keyOf_or_updated : ∀ changed present updated,
    keyOf changed present updated ||| MT_KEY_UPDATED_FLAG = keyOf changed present true := by decide

@[simp] theorem keyOf_and_changed : ∀ changed present updated,
    keyOf changed present updated &&& MT_KEY_CHANGED_FLAG = 0#32 ↔ changed = false := by decide

@[simp] theorem keyOf_and_present : ∀ changed present updated,
    keyOf changed present updated &&& MT_KEY_PRESENT_FLAG = 0#32 ↔ present = false := by decide

@[simp] theorem keyOf_and_updated : ∀ changed present updated,
    keyOf changed present updated &&& MT_KEY_UPDATED_FLAG = 0#32 ↔ updated = false := by decide

theorem keyOf_false : keyOf false false false = 0#32 := by decide

theorem clearFlags_keyOf :
    ({ abs, key := keyOf changed present updated } : MtSlot).clearFlags =
      { abs, key := keyOf false present false } := by
  rw [MtSlot.clearFlags, keyOf_cleared]

theorem update_keyOf (code : Nat) (value : Int) :
    ({ abs, key := keyOf changed present updated } : MtSlot).update code value =
      { abs := Function.update abs (code - ABS_MT_FIRST) value
        key := keyOf (changed || abs (code - ABS_MT_FIRST) ≠ value) present true } := by
  unfold MtSlot.update
  rw [keyOf_or_updated]
  by_cases hsame : abs (code - ABS_MT_FIRST) = value
  · simp [hsame]
  · simp only [hsame, ne_eq, not_false_eq_true, if_true, keyOf_or_changed, decide_true, Bool.or_true]

theorem foldl_update_keyOf :
    vals.foldl (fun slot val => slot.update val.code val.value)
        ({ abs, key := keyOf changed present updated } : MtSlot) =
      { abs := latest abs vals
        key := keyOf (changed || changes abs vals) present (updated || vals ≠ []) } := by
  induction vals generalizing abs changed updated with
  | nil => simp [latest, changes]
  | cons val vals ih =>
    rw [List.foldl_cons, update_keyOf, ih]
    simp [latest, changes, Bool.or_assoc]

/-- "Detect press, release, motion" for each setting of the flags. -/
theorem detect_keyOf :
    ({ abs, key := keyOf changed present updated } : MtSlot).detect i =
      if updated then
        ({ abs, key := keyOf changed true true },
          if !present || changed then [MtSlot.touch { abs } i] else [])
      else if present then ({ abs, key := 0 }, [.release i])
      else ({ abs, key := keyOf changed false false }, []) := by
  unfold MtSlot.detect MtSlot.touch
  cases present <;> cases updated <;> cases changed <;> simp

/-- A frame with the values `vals` for the slot. -/
theorem frame_keyOf :
    ({ abs, key := keyOf changed present updated } : MtSlot).frame vals i =
      if vals ≠ [] then
        ({ abs := latest abs vals, key := keyOf (changes abs vals) true true },
          if !present || changes abs vals then [MtSlot.touch { abs := latest abs vals } i] else [])
      else if present then ({ abs, key := 0 }, [.release i])
      else ({ abs, key := keyOf false false false }, []) := by
  unfold MtSlot.frame
  rw [clearFlags_keyOf, foldl_update_keyOf, detect_keyOf]
  cases vals with
  | nil => cases present <;> simp [latest, changes]
  | cons val vals => cases present <;> cases hchanges : changes abs (val :: vals) <;> simp

theorem detect_finger (slot : MtSlot) : ∀ e ∈ (slot.detect i).2, e.finger = i := by
  unfold MtSlot.detect
  dsimp only
  intro e he
  split at he <;> split at he <;> simp_all [MtSlot.touch, TouchEvent.finger]

theorem frame_finger (slot : MtSlot) (vals : List InputValue) : ∀ e ∈ (slot.frame vals i).2, e.finger = i :=
  detect_finger _

theorem latest_append (more : List InputValue) : latest abs (vals ++ more) = latest (latest abs vals) more :=
  List.foldl_append

theorem touching_append : touching (pre ++ [vals]) = decide (vals ≠ []) := by simp [touching]

/-- The frame of a slot is what it should be for the finger. -/
theorem fingerFrame_frame :
    FingerFrame i pre vals
      (({ abs := latest (fun _ => 0) pre.flatten, key := keyOf changed (touching pre) updated } : MtSlot).frame
        vals i).2 := by
  rw [frame_keyOf]
  have htouch : touchAt i (pre ++ [vals]) =
      MtSlot.touch { abs := latest (latest (fun _ => 0) pre.flatten) vals } i := by
    rw [touchAt, List.flatten_append, latest_append]
    simp
  refine ⟨fun hp hv => ?_, fun hp hv => ?_, fun hp hv => ?_, fun hp hv => ?_⟩
  · simp [hp, hv]
  · simp [hp, hv]
  · simp [hp, hv, htouch]
  · simp [hp, hv, htouch]

/-- And leaves the slot as it should be for the next. -/
theorem frame_slot :
    ∃ changed' updated', (({ abs := latest (fun _ => 0) pre.flatten
                             key := keyOf changed (touching pre) updated } : MtSlot).frame vals i).1 =
      { abs := latest (fun _ => 0) (pre ++ [vals]).flatten
        key := keyOf changed' (touching (pre ++ [vals])) updated' } := by
  have habs : latest (fun _ => 0) (pre ++ [vals]).flatten =
      latest (latest (fun _ => 0) pre.flatten) vals := by
    rw [List.flatten_append, latest_append]
    simp
  rw [frame_keyOf, touching_append, habs]
  by_cases hv : vals = []
  · refine ⟨false, false, ?_⟩
    cases touching pre <;> simp [hv, latest, keyOf_false]
  · exact ⟨changes (latest (fun _ => 0) pre.flatten) vals, true, by simp [hv]⟩

theorem Contacts.append {log events : List TouchEvent} (h : Contacts i (touching pre) log)
    (hframe : FingerFrame i pre vals events) : Contacts i (touching (pre ++ [vals])) (log ++ events) := by
  rw [touching_append]
  by_cases hv : vals = []
  · cases hp : touching pre with
    | false =>
      rw [hp] at h
      simpa [hframe.absent hp hv, hv] using h
    | true =>
      rw [hp] at h
      simpa [hframe.released hp hv, hv] using h.release
  · cases hp : touching pre with
    | false =>
      rw [hframe.pressed hp hv, decide_eq_true hv]
      exact h.touch
    | true =>
      rw [hframe.moved hp hv]
      split
      · rw [decide_eq_true hv]
        exact h.touch
      · rw [hp] at h
        simpa [hv] using h

end Slot

-- ---------------------------------------------------------------------------
-- All slots, over the frames
-- ---------------------------------------------------------------------------

section Frames

variable {dev : InputDev} {numSlots : BitVec 32} {frames pre : List (List Report)} {reports : List Report}
  {i : Nat}

/-- The values of a finger in the frames. -/
def fingerFrames (values : List Report → List InputValue) (numSlots : BitVec 32) (i : Nat)
    (frames : List (List Report)) : List (List InputValue) :=
  frames.map fun reports => valuesOf numSlots.toInt i (-1) (values reports)

theorem fingerFrames_append (values : List Report → List InputValue) :
    fingerFrames values numSlots i (frames ++ [reports]) =
      fingerFrames values numSlots i frames ++ [valuesOf numSlots.toInt i (-1) (values reports)] := by
  simp [fingerFrames]

/-- The device after the frames. -/
structure Follows (numSlots : BitVec 32) (frames : List (List Report)) (dev : InputDev) : Prop where
  vals : dev.vals = []
  maxVals : dev.maxVals = 256
  count : dev.numSlots = numSlots.toInt
  slots : ∀ i < numSlots.toInt.toNat, ∃ changed updated, dev.slots i =
    { abs := latest (fun _ => 0) (fingerFrames (recorded 256) numSlots i frames).flatten
      key := keyOf changed (touching (fingerFrames (recorded 256) numSlots i frames)) updated }

theorem follows_start : Follows numSlots [] (start numSlots) :=
  ⟨rfl, rfl, rfl, fun _ _ => ⟨false, false, congrArg (MtSlot.mk fun _ => 0) keyOf_false.symm⟩⟩

theorem Follows.capture (h : Follows numSlots frames dev) :
    dev.capture reports = { dev with vals := recorded 256 reports } := by
  rw [capture_eq (by simp [h.vals]), h.vals, h.maxVals]
  rfl

theorem Follows.next (h : Follows numSlots frames dev) :
    Follows numSlots (frames ++ [reports]) (device.next dev reports) := by
  have hnext : device.next dev reports = (eventGenerator (dev.capture reports)).1 := rfl
  rw [h.capture] at hnext
  rw [hnext]
  refine ⟨rfl, h.maxVals, h.count, fun i hi => ?_⟩
  obtain ⟨changed, updated, hslot⟩ := h.slots i hi
  rw [eventGenerator_slots (by simpa [h.count] using hi), fingerFrames_append]
  dsimp only
  rw [hslot, h.count]
  exact frame_slot

theorem follows_run (frames : List (List Report)) :
    Follows numSlots frames (device.run (start numSlots) frames) := by
  induction frames using List.reverseRecOn with
  | nil => exact follows_start
  | append_singleton frames reports ih =>
    rw [System.run_append]
    exact ih.next

theorem valuesOf_of_le {numSlots currSlot : Int} {vals : List InputValue} (hi : numSlots ≤ i) :
    valuesOf numSlots i currSlot vals = [] := by
  induction vals generalizing currSlot with
  | nil => rfl
  | cons val vals ih =>
    have hnot : ¬ (Updates numSlots (val.currSlot currSlot) val.code ∧ val.currSlot currSlot = i) := by
      rintro ⟨hupdates, hcurr⟩
      have := hupdates.2.1
      omega
    simp only [valuesOf, if_neg hnot, ih, ite_self]

theorem filter_finger {g : Nat → List TouchEvent} (hg : ∀ j, ∀ e ∈ g j, e.finger = j) (n : Nat) :
    ((List.range n).flatMap g).filter (·.finger = i) = if i < n then g i else [] := by
  induction n with
  | zero => rfl
  | succ n ih =>
    rw [List.range_succ, List.flatMap_append, List.filter_append, ih, List.flatMap_singleton]
    by_cases hi : i = n
    · have hall : (g n).filter (·.finger = i) = g n :=
        List.filter_eq_self.mpr fun e he => by simp [hg n e he, hi]
      rw [hall, if_neg (by omega), if_pos (by omega), hi, List.nil_append]
    · have hnone : (g n).filter (·.finger = i) = [] :=
        List.filter_eq_nil_iff.mpr fun e he => by simp [hg n e he, Ne.symm hi]
      rw [hnone, List.append_nil]
      simp only [Nat.lt_succ_iff_lt_or_eq, hi, or_false]

/-- Each frame does to each finger what it should. -/
theorem Follows.fingerFrame (h : Follows numSlots frames dev) :
    FingerFrame i (fingerFrames (recorded 256) numSlots i frames)
      (valuesOf numSlots.toInt i (-1) (recorded 256 reports))
      ((device.obs dev reports).filter (·.finger = i)) := by
  have hobs : device.obs dev reports = (eventGenerator (dev.capture reports)).2 := rfl
  rw [hobs, h.capture, eventGenerator_events, filter_finger fun j => frame_finger _ _]
  dsimp only
  rw [h.count]
  by_cases hi : i < numSlots.toInt.toNat
  · obtain ⟨changed, updated, hslot⟩ := h.slots i hi
    rw [if_pos hi, hslot]
    exact fingerFrame_frame
  · -- no such slot: the finger has no values
    have hle : numSlots.toInt ≤ i := by omega
    have hframes : touching (fingerFrames (recorded 256) numSlots i frames) = false := by
      unfold fingerFrames touching
      simp only [valuesOf_of_le hle, List.getLast?_map]
      cases frames.getLast? <;> rfl
    rw [if_neg hi, valuesOf_of_le hle]
    exact ⟨fun _ _ => rfl, fun hp => by simp [hframes] at hp, fun _ hv => absurd rfl hv, fun _ hv => absurd rfl hv⟩

/-- Over any frames, each finger touches and leaves as its values say, as far as there was
room to record them. -/
theorem touches_wellFormed (numSlots : BitVec 32) (frames : List (List Report)) (i : Nat) :
    WellFormedTouches (recorded 256) numSlots frames i where
  contacts := by
    refine ⟨touching (fingerFrames (recorded 256) numSlots i frames), ?_⟩
    induction frames using List.reverseRecOn with
    | nil => exact .nil
    | append_singleton frames reports ih =>
      rw [System.log_append, List.filter_append, fingerFrames_append]
      refine ih.append ?_
      rw [System.log_cons, System.log_nil, List.append_nil]
      exact (follows_run frames).fingerFrame
  frame pre reports post _ := (follows_run pre).fingerFrame

end Frames

-- ---------------------------------------------------------------------------
-- A frame that overflows
-- ---------------------------------------------------------------------------

/-- What the reports of a frame come to if there is room for all of them. -/
def reported (reports : List Report) : List InputValue := recorded reports.length reports

/-- The finger is reported at (7, 1), after as many values as there is room for. -/
def overflowing : List Report :=
  { type := EV_ABS, code := ABS_MT_SLOT, value := 0 } ::
    List.replicate 255 { type := EV_ABS, code := ABS_MT_POSITION_Y, value := 1 } ++
    [{ type := EV_ABS, code := ABS_MT_POSITION_X, value := 7 }]

theorem overflowing_touch :
    (device.obs (device.run (start 1) []) overflowing).filter (·.finger = 0) = [.touch 0 0 1 0] := by
  decide +kernel

theorem overflowing_reported :
    touchAt 0 [valuesOf (1 : BitVec 32).toInt 0 (-1) (reported overflowing)] = .touch 0 7 1 0 := by
  decide +kernel

theorem overflow_drops_coordinate : ¬ WellFormedTouches reported 1 [overflowing] 0 := by
  intro h
  have hpressed := (h.frame [] overflowing [] rfl).pressed rfl (by decide +kernel)
  rw [overflowing_touch, List.map_nil, List.nil_append, overflowing_reported] at hpressed
  cases hpressed

end Allwinner.Touch
