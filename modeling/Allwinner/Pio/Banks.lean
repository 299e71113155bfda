import Allwinner.Library.RegisterFile
import Allwinner.Pio.Driver

/-!
# Banks of pins

The registers `Pio` writes, at their addresses. The pins of a bank share them, a few bits each. What
they say about each pin is what the driver's own registers say, through every run.
-/

namespace Allwinner.Pio

open Library.RegisterFile (Field Write ItemArray read_write read_write_of_apart getLsbD_writes writes_append)

-- ---------------------------------------------------------------------------
-- Values
-- ---------------------------------------------------------------------------

def Function.value : Function → BitVec 32
  | input => 0
  | output => 1
  | fn2 => 2
  | fn3 => 3
  | fn4 => 4
  | fn5 => 5
  | irq => 6
  | disable => 7

def Pull.value : Pull → BitVec 32
  | disable => 0
  | up => 1
  | down => 2

def Pull.ofValue (v : BitVec 32) : Pull := if v = 1 then .up else if v = 2 then .down else .disable

def IrqTrigger.value : IrqTrigger → BitVec 32
  | rising => 0
  | falling => 1
  | high => 2
  | low => 3
  | edges => 4

def IrqTrigger.ofValue (v : BitVec 32) : IrqTrigger :=
  if v = 1 then .falling else if v = 2 then .high else if v = 3 then .low else if v = 4 then .edges else .rising

theorem Function.value_spec (f : Function) : ofNumber ⟨f.value⟩ = f ∧ f.value.toNat < 2 ^ 4 := by
  cases f <;> decide

theorem Pull.value_spec (p : Pull) : ofValue p.value = p ∧ p.value.toNat < 2 ^ 2 := by
  cases p <;> decide

theorem IrqTrigger.value_spec (t : IrqTrigger) : ofValue t.value = t ∧ t.value.toNat < 2 ^ 4 := by
  cases t <;> decide

-- ---------------------------------------------------------------------------
-- Addresses
-- ---------------------------------------------------------------------------

namespace Bank

def number : Bank → Nat
  | b => 1
  | c => 2
  | d => 3
  | e => 4
  | f => 5
  | g => 6
  | h => 7
  | l => 8

/-- `base_range`, with the ranges the platform driver hands out. -/
def ioBank (bank : Bank) : Nat :=
  if 1 ≤ bank.number ∧ bank.number ≤ 7 then 0x1c20800 + bank.number * 0x24 else 0x1f02c00

/-- `_with_irq_regs`. -/
def irqRegs : Bank → Option Nat
  | b => some (0x1c20800 + 0x200)
  | g => some (0x1c20800 + 0x220)
  | h => some (0x1c20800 + 0x240)
  | l => some (0x1f02c00 + 0x200)
  | c | d | e | f => none

theorem isSome_irqRegs (bank : Bank) : bank.irqRegs.isSome = bank.hasIrqRegs := by
  cases bank <;> rfl

def all : List Bank := [b, c, d, e, f, g, h, l]

theorem mem_all (bank : Bank) : bank ∈ all := by
  cases bank <;> decide

end Bank

/-- The register arrays of `Io_bank` and `Irq_regs`. -/
inductive Item
  | cfg | data | pull | irqCfg | irqControl
  deriving DecidableEq

namespace Item

def width : Item → Nat
  | cfg => 4
  | data => 1
  | pull => 2
  | irqCfg => 4
  | irqControl => 1

theorem width_spec (r : Item) : 0 < r.width ∧ r.width ∣ 32 := by
  cases r <;> decide

def base (bank : Bank) : Item → Option Nat
  | cfg => some bank.ioBank
  | data => some (bank.ioBank + 0x10)
  | pull => some (bank.ioBank + 0x1c)
  | irqCfg => bank.irqRegs
  | irqControl => bank.irqRegs.map (· + 0x10)

def array (bank : Bank) (r : Item) : Option (ItemArray 32 4) :=
  (r.base bank).map fun offset => ⟨offset, r.width, r.width_spec.1, r.width_spec.2⟩

def all : List Item := [cfg, data, pull, irqCfg, irqControl]

theorem mem_all (r : Item) : r ∈ all := by
  cases r <;> decide

end Item

/-- Arrays have no address in common. -/
theorem arrays_apart : ∀ bank ∈ Bank.all, ∀ r ∈ Item.all, ∀ bank' ∈ Bank.all, ∀ r' ∈ Item.all,
    (bank = bank' ∧ r = r') ∨
      ∀ x ∈ r.array bank, ∀ y ∈ r'.array bank', ItemArray.Before 32 x y ∨ ItemArray.Before 32 y x := by
  decide +kernel

/-- Where an item of a pin is. -/
def PinId.field (id : PinId) (r : Item) : Option Field := (r.array id.bank).map (·.item id.index.toNat)

theorem isSome_field (id : PinId) (r : Item) : (id.field r).isSome = (r.array id.bank).isSome :=
  Option.isSome_map

section Fields

variable {id id' : PinId} {r r' : Item} {f f' : Field}

theorem index_lt (hphys : id.physical = true) : id.index.toNat < 32 :=
  UInt32.lt_iff_toNat_lt.mp (of_decide_eq_true hphys)

theorem field_spec (h : id.field r = some f) : f.Fits 32 ∧ f.width = r.width := by
  obtain ⟨x, hx, rfl⟩ := Option.map_eq_some_iff.mp h
  obtain ⟨offset, -, rfl⟩ := Option.map_eq_some_iff.mp hx
  exact ⟨ItemArray.fits (by decide) _ _, rfl⟩

theorem field_apart (hphys : id.physical = true) (hphys' : id'.physical = true) (h : id.field r = some f)
    (h' : id'.field r' = some f') (hne : ¬ (id = id' ∧ r = r')) : f.Apart f' := by
  obtain ⟨x, hx, rfl⟩ := Option.map_eq_some_iff.mp h
  obtain ⟨y, hy, rfl⟩ := Option.map_eq_some_iff.mp h'
  obtain ⟨hbank, rfl⟩ | hbefore :=
    arrays_apart id.bank (Bank.mem_all _) r (Item.mem_all _) id'.bank (Bank.mem_all _) r' (Item.mem_all _)
  · obtain rfl : x = y := Option.some.inj (by rw [← hx, ← hy, hbank])
    refine ItemArray.apart (by decide) fun hindex => hne ⟨?_, rfl⟩
    obtain ⟨bank, index⟩ := id
    obtain ⟨bank', index'⟩ := id'
    obtain rfl : bank = bank' := hbank
    exact congrArg _ (UInt32.toNat_inj.mp hindex)
  · obtain hxy | hyx := hbefore x hx y hy
    · exact ItemArray.apart_of_before hxy (index_lt hphys)
    · exact (ItemArray.apart_of_before hyx (index_lt hphys')).symm

end Fields

-- ---------------------------------------------------------------------------
-- Operations
-- ---------------------------------------------------------------------------

/-- The registers of all banks. -/
abbrev Io := Library.RegisterFile.Registers 32

namespace PinId

/-- An item is read. -/
def get (id : PinId) (r : Item) (io : Io) : BitVec 32 := ((id.field r).map io.read).getD 0

/-- An item is written, unless there is none of this index. -/
def put (id : PinId) (r : Item) (v : BitVec 32) : List (Write 32) :=
  if id.physical then ((id.field r).map (·, v)).toList else []

variable {id id' : PinId} {r r' : Item} {io : Io} {v : BitVec 32}

theorem get_put (hphys' : id'.physical = true) (hv : v.toNat < 2 ^ r.width) :
    id'.get r' (io.writes (id.put r v)) =
      if id' = id ∧ r' = r ∧ (r.array id.bank).isSome then v else id'.get r' io := by
  by_cases hphys : id.physical = true
  · rw [put, if_pos hphys, ← isSome_field]
    cases hf : id.field r with
    | none => simp
    | some f =>
      obtain ⟨hfits, hwidth⟩ := field_spec hf
      by_cases heq : id' = id ∧ r' = r
      · obtain ⟨rfl, rfl⟩ := heq
        rw [if_pos ⟨rfl, rfl, rfl⟩, get, hf]
        exact (read_write hfits).trans (Field.stored_eq (hwidth ▸ hv))
      · rw [if_neg fun h => heq ⟨h.1, h.2.1⟩, get, get]
        cases hf' : id'.field r' with
        | none => rfl
        | some f' =>
          exact read_write_of_apart (field_spec hf').1 hfits (field_apart hphys hphys' hf hf' fun h =>
            heq ⟨h.1.symm, h.2.symm⟩)
  · have hne : ¬ (id' = id ∧ r' = r ∧ (r.array id.bank).isSome) := by
      rintro ⟨rfl, -⟩
      exact hphys hphys'
    rw [put, if_neg hphys, if_neg hne]
    rfl

/-- What the items of a pin say. -/
def regs (id : PinId) (io : Io) : PinRegs where
  cfg := .ofNumber ⟨id.get .cfg io⟩
  pull := .ofValue (id.get .pull io)
  data := id.get .data io ≠ 0
  irqTrigger := .ofValue (id.get .irqCfg io)

end PinId

/-- What the registers say, and for which pins interrupts are delivered. -/
structure Chip where
  pins : Registers
  irqEnabled : PinId → Bool

def chip (io : Io) : Chip where
  pins id := if id.physical then id.regs io else Registers.disabled id
  irqEnabled id := id.physical && id.get .irqControl io ≠ 0

theorem irqEnabled_iff {io : Io} {id : PinId} :
    (chip io).irqEnabled id = true ↔ id.physical = true ∧ id.get .irqControl io ≠ 0 := by
  simp [chip]

/-- The operations of `Pio`. -/
inductive Operation
  | configure (id : PinId) (attr : Attr)
  | state (id : PinId) (level : Level)
  | irqEnabled (id : PinId) (enabled : Bool)

namespace Operation

def pin : Operation → PinId
  | configure id _ | state id _ | irqEnabled id _ => id

def writes : Operation → List (Write 32)
  | configure id attr =>
    id.put .cfg attr.function.value ++ id.put .pull attr.pull.value ++ id.put .irqCfg attr.irqTrigger.value
  | state id .highImpedance => id.put .cfg Function.input.value
  | state id .high => id.put .cfg Function.output.value ++ id.put .data 1
  | state id .low => id.put .cfg Function.output.value ++ id.put .data 0
  | irqEnabled id enabled => id.put .irqControl (if enabled then 1 else 0)

def apply : Operation → Chip → Chip
  | configure id attr, c => { c with pins := c.pins.configure id attr }
  | state id level, c => { c with pins := c.pins.state id level }
  | irqEnabled id enabled, c =>
    { c with
      irqEnabled :=
        if id.physical ∧ id.bank.hasIrqRegs then Function.update c.irqEnabled id enabled else c.irqEnabled }

/-- What an item of the pin becomes. -/
def item : Operation → Item → Option (BitVec 32)
  | configure _ attr, .cfg => some attr.function.value
  | configure _ attr, .pull => some attr.pull.value
  | configure _ attr, .irqCfg => some attr.irqTrigger.value
  | state _ .highImpedance, .cfg => some Function.input.value
  | state _ .high, .cfg | state _ .low, .cfg => some Function.output.value
  | state _ .high, .data => some 1
  | state _ .low, .data => some 0
  | irqEnabled _ enabled, .irqControl => some (if enabled then 1 else 0)
  | _, _ => none

theorem get_writes (op : Operation) {id : PinId} (hphys : id.physical = true) (r : Item) (io : Io) :
    id.get r (io.writes op.writes) =
      if id = op.pin ∧ (r.array op.pin.bank).isSome then (op.item r).getD (id.get r io) else id.get r io := by
  cases op with
  | configure id' attr =>
    have hf := attr.function.value_spec.2
    have hp := attr.pull.value_spec.2
    have ht := attr.irqTrigger.value_spec.2
    rw [writes, pin, writes_append, writes_append, PinId.get_put hphys ht, PinId.get_put hphys hp,
      PinId.get_put hphys hf]
    cases r <;> simp [item]
  | state id' level =>
    cases level with
    | highImpedance =>
      rw [writes, pin, PinId.get_put hphys (by decide)]
      cases r <;> simp [item]
    | high | low =>
      rw [writes, pin, writes_append, PinId.get_put hphys (by decide), PinId.get_put hphys (by decide)]
      cases r <;> simp [item]
  | irqEnabled id' enabled =>
    rw [writes, pin, PinId.get_put hphys (by cases enabled <;> decide)]
    cases r <;> simp [item]

variable {id : PinId} {io : Io}

/-- Other pins are left alone. -/
theorem regs_of_ne (op : Operation) (hphys : id.physical = true) (hne : id ≠ op.pin) :
    id.regs (io.writes op.writes) = id.regs io ∧
    id.get .irqControl (io.writes op.writes) = id.get .irqControl io := by
  have hget (r : Item) : id.get r (io.writes op.writes) = id.get r io :=
    (op.get_writes hphys r io).trans (if_neg fun h => hne h.1)
  exact ⟨by rw [PinId.regs, PinId.regs, hget, hget, hget, hget], hget _⟩

theorem regs_configure (attr : Attr) (hphys : id.physical = true) :
    id.regs (io.writes (configure id attr).writes) = (id.regs io).configure id.bank attr ∧
    id.get .irqControl (io.writes (configure id attr).writes) = id.get .irqControl io := by
  have hget := (configure id attr).get_writes hphys
  refine ⟨?_, by simp [hget, pin, item]⟩
  simp only [PinId.regs, PinRegs.configure, hget, ← Bank.isSome_irqRegs]
  simp only [pin, item, Item.array, Item.base, Function.value_spec, Pull.value_spec, Option.isSome_map,
    Option.getD_some, Option.getD_none, true_and, ite_self, Option.map_some, Option.isSome_some, if_true]
  congr 1
  split
  · exact attr.irqTrigger.value_spec.1
  · rfl

theorem regs_state (level : Level) (hphys : id.physical = true) :
    id.regs (io.writes (state id level).writes) = (id.regs io).state level ∧
    id.get .irqControl (io.writes (state id level).writes) = id.get .irqControl io := by
  have hget := (state id level).get_writes hphys
  refine ⟨?_, by cases level <;> simp [hget, pin, item]⟩
  simp only [PinId.regs, hget]
  cases level <;> simp [item, pin, Item.array, Item.base, PinRegs.state, Function.value_spec]

/-- An operation on the registers of a pin. -/
theorem chip_of_regs (op : Operation) (f : PinRegs → PinRegs)
    (h : op.pin.physical = true → op.pin.regs (io.writes op.writes) = f (op.pin.regs io) ∧
      op.pin.get .irqControl (io.writes op.writes) = op.pin.get .irqControl io) :
    chip (io.writes op.writes) = { chip io with pins := (chip io).pins.write op.pin f } := by
  have hpin {id : PinId} (hphys : id.physical = true) :
      id.regs (io.writes op.writes) = (chip io).pins.write op.pin f id ∧
      id.get .irqControl (io.writes op.writes) = id.get .irqControl io := by
    have hself : (chip io).pins id = id.regs io := if_pos hphys
    by_cases heq : id = op.pin
    · subst heq
      rw [Registers.write_self hphys, hself]
      exact h hphys
    · rw [Registers.write_of_ne heq, hself]
      exact op.regs_of_ne hphys heq
  rw [chip, Chip.mk.injEq]
  refine ⟨funext fun id => ?_, funext fun id => ?_⟩
  all_goals by_cases hphys : id.physical = true
  · rw [if_pos hphys, (hpin hphys).1]
  · have hnone : (chip io).pins.write op.pin f id = (chip io).pins id := by
      by_cases heq : id = op.pin
      · rw [Registers.write, if_neg (heq ▸ hphys)]
      · exact Registers.write_of_ne heq f
    rw [if_neg hphys, hnone]
    exact (if_neg hphys).symm
  · rw [(hpin hphys).2]
    rfl
  · rw [Bool.eq_false_iff.mpr hphys]
    show false = (id.physical && _)
    rw [Bool.eq_false_iff.mpr hphys]
    rfl

theorem regs_irqEnabled (enabled : Bool) {id' : PinId} (hphys : id'.physical = true) :
    id'.regs (io.writes (irqEnabled id enabled).writes) = id'.regs io ∧
    (id'.get .irqControl (io.writes (irqEnabled id enabled).writes) ≠ 0 ↔
      if id' = id ∧ id.bank.hasIrqRegs then enabled = true else id'.get .irqControl io ≠ 0) := by
  have hget := (irqEnabled id enabled).get_writes hphys
  refine ⟨by simp [PinId.regs, hget, item], ?_⟩
  rw [hget, pin, item, Option.getD_some, Item.array, Option.isSome_map, Item.base, Option.isSome_map,
    Bank.isSome_irqRegs]
  split
  · cases enabled <;> decide
  · rfl

/-- The registers say of the pins what the operation says of them. -/
theorem chip_writes (op : Operation) : chip (io.writes op.writes) = op.apply (chip io) := by
  cases op with
  | configure id attr => exact chip_of_regs _ (PinRegs.configure id.bank attr) (regs_configure attr)
  | state id level => exact chip_of_regs _ (PinRegs.state level) (regs_state level)
  | irqEnabled id enabled =>
    have hpins : (chip (io.writes (irqEnabled id enabled).writes)).pins = (chip io).pins := by
      funext id'
      by_cases hphys : id'.physical = true
      · exact (if_pos hphys).trans ((regs_irqEnabled enabled hphys).1.trans (if_pos hphys).symm)
      · exact (if_neg hphys).trans (if_neg hphys).symm
    refine (Chip.mk.injEq ..).mpr ⟨hpins, funext fun id' => ?_⟩
    show (chip (io.writes (irqEnabled id enabled).writes)).irqEnabled id' = _
    have hother (hne : ¬ (id' = id ∧ id.physical ∧ id.bank.hasIrqRegs)) :
        (chip (io.writes (irqEnabled id enabled).writes)).irqEnabled id' = (chip io).irqEnabled id' := by
      rw [Bool.eq_iff_iff, irqEnabled_iff, irqEnabled_iff]
      refine and_congr_right fun hphys => ?_
      rw [(regs_irqEnabled enabled hphys).2, if_neg]
      rintro ⟨rfl, hregs⟩
      exact hne ⟨rfl, hphys, hregs⟩
    by_cases hown : id.physical ∧ id.bank.hasIrqRegs
    · rw [if_pos hown]
      by_cases heq : id' = id
      · rw [heq, Function.update_self, Bool.eq_iff_iff, irqEnabled_iff, (regs_irqEnabled enabled hown.1).2,
          if_pos ⟨rfl, hown.2⟩]
        exact and_iff_right hown.1
      · rw [Function.update_of_ne heq]
        exact hother fun h => heq h.1
    · rw [if_neg hown]
      exact hother fun h => hown h.2

end Operation

-- ---------------------------------------------------------------------------
-- One operation after the other
-- ---------------------------------------------------------------------------

def trace (ops : List Operation) : List (Write 32) := ops.flatMap Operation.writes

def applied (ops : List Operation) (c : Chip) : Chip := ops.foldl (fun c op => op.apply c) c

theorem applied_append (ops ops' : List Operation) (c : Chip) :
    applied (ops ++ ops') c = applied ops' (applied ops c) := List.foldl_append

theorem chip_trace (ops : List Operation) (io : Io) : chip (io.writes (trace ops)) = applied ops (chip io) := by
  induction ops generalizing io with
  | nil => rfl
  | cons op ops ih =>
    rw [trace, List.flatMap_cons, writes_append]
    exact (ih _).trans (congrArg (applied ops) op.chip_writes)

/-- A bit of a pin. -/
def Covered (a i : Nat) : Prop := ∃ id : PinId, id.physical = true ∧ ∃ r, ∃ f ∈ id.field r, f.Covers a i

theorem put_spec {id : PinId} {r : Item} {v : BitVec 32} {w : Write 32} (h : w ∈ id.put r v) :
    id.physical = true ∧ w.1 ∈ id.field r := by
  by_cases hphys : id.physical = true
  · rw [PinId.put, if_pos hphys, Option.mem_toList] at h
    obtain ⟨f, hf, rfl⟩ := Option.map_eq_some_iff.mp h
    exact ⟨hphys, hf⟩
  · rw [PinId.put, if_neg hphys] at h
    cases h

theorem Operation.writes_spec (op : Operation) {w : Write 32} (h : w ∈ op.writes) :
    op.pin.physical = true ∧ ∃ r, w.1 ∈ op.pin.field r := by
  have hput {id : PinId} {r : Item} {v : BitVec 32} (hw : w ∈ id.put r v) :
      id.physical = true ∧ ∃ r, w.1 ∈ id.field r := (put_spec hw).imp_right fun hf => ⟨r, hf⟩
  cases op with
  | configure id attr =>
    rw [writes, List.mem_append, List.mem_append] at h
    obtain (h | h) | h := h
    all_goals exact hput h
  | state id level =>
    cases level with
    | highImpedance => exact hput h
    | high | low => exact (List.mem_append.mp h).elim hput hput
  | irqEnabled id enabled => exact hput h

/-- Bits of no pin stay. -/
theorem trace_outside (ops : List Operation) (io : Io) {a i : Nat} (h : ¬ Covered a i) :
    (io.writes (trace ops) a).getLsbD i = (io a).getLsbD i := by
  refine getLsbD_writes fun w hw => ?_
  obtain ⟨op, -, hw⟩ := List.mem_flatMap.mp hw
  obtain ⟨hphys, r, hf⟩ := op.writes_spec hw
  exact ⟨(field_spec hf).1, fun hcovers => h ⟨op.pin, hphys, r, _, hf, hcovers⟩⟩

end Allwinner.Pio
