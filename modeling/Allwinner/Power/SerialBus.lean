import Allwinner.Library.BitFields
import Allwinner.Library.RegisterFile
import Allwinner.Scp.Effects

/-!
# The reduced serial bus

The controller of the bus, as far as the application uses it, and the power-management IC on it. A
transfer is over when the status register has been read often enough. Until then it is not known
what the other registers hold.
-/

namespace Allwinner.Power

open Library Scp
open Library.RegisterFile (Registers)

/-- The registers of the controller. -/
inductive BusRegister where
  | ctrl | ccr | stat | daddr | data | pmcr | cmd | saddr
  deriving DecidableEq

namespace BusRegister

def offset : BusRegister → Cell
  | ctrl => 0
  | ccr => 4
  | stat => 0xc
  | daddr => 0x10
  | data => 0x1c
  | pmcr => 0x28
  | cmd => 0x2c
  | saddr => 0x30

def addr (r : BusRegister) : Cell := 0x1f03400 + r.offset

def all : List BusRegister := [ctrl, ccr, stat, daddr, data, pmcr, cmd, saddr]

def ofAddr? (a : Cell) : Option BusRegister := all.find? (·.addr == a)

theorem ofAddr?_addr (r : BusRegister) : ofAddr? r.addr = some r := by cases r <;> decide

end BusRegister

/-- The controller and the IC on the bus. -/
structure Rsb where
  held : BusRegister → Cell
  /-- How often the status register is still to be read until the transfer is over. There is none
  between an acknowledgement and the next start. -/
  pending : Option Nat := none
  /-- How many transfers there were. -/
  count : Nat := 0
  chip : Registers 8
  /-- The run-time address of the IC. -/
  address : Byte

namespace Rsb

/-- The transfer that the registers describe, a byte wide. The IC is told its run-time address, or is
addressed by it. -/
def transfer (b : Rsb) : Rsb :=
  let r := (b.held .daddr).toNat % 256
  let rtsaddr := (BitFields.extract (b.held .saddr) 16 8).setWidth 8
  if b.held .cmd = 0xe8 then
    if BitFields.extract (b.held .saddr) 0 16 = 0x3a3 then { b with address := rtsaddr } else b
  else if rtsaddr ≠ b.address then b
  else if b.held .cmd = 0x8b then
    { b with held := Function.update b.held .data ((b.chip r).setWidth 32) }
  else if b.held .cmd = 0x4e then
    { b with chip := Function.update b.chip r ((b.held .data).setWidth 8) }
  else b

/-- A store to a register. Bit 7 of `ctrl` starts a transfer and does not stay set, and a one in `stat`
acknowledges that it is over. -/
def store (latency : Nat → Nat) (b : Rsb) (r : BusRegister) (v : Cell) : Rsb :=
  match r with
  | .ctrl =>
    let b := { b with held := Function.update b.held .ctrl (BitFields.insert v 7 1 0) }
    if v.getLsbD 7 then { b.transfer with pending := some (latency b.count), count := b.count + 1 } else b
  | .stat => if v.getLsbD 0 ∧ b.pending = some 0 then { b with pending := none } else b
  | r => { b with held := Function.update b.held r v }

/-- What a register answers, as far as it is known. -/
def answer (b : Rsb) : BusRegister → Option Cell
  | .stat => some (if b.pending = some 0 then 1 else 0)
  | r => if b.pending.any (0 < ·) then none else some (b.held r)

/-- A load of a register. -/
def load (b : Rsb) : BusRegister → Rsb
  | .stat => { b with pending := b.pending.map (· - 1) }
  | _ => b

/-- Accesses to anything but a register, or of another width, are none of the controller's. -/
def step (latency : Nat → Nat) (b : Rsb) : Transfer → Rsb
  | .stored n a v => if n = 4 then (BusRegister.ofAddr? a).elim b (b.store latency · v) else b
  | .loaded n a => if n = 4 then (BusRegister.ofAddr? a).elim b b.load else b

variable {b : Rsb} {latency : Nat → Nat}

theorem store_held {r : BusRegister} (hctrl : r ≠ .ctrl) (hstat : r ≠ .stat) (v : Cell) :
    b.store latency r v = { b with held := Function.update b.held r v } := by
  cases r <;> first | contradiction | rfl

theorem store_start {v : Cell} (hv : v.getLsbD 7 = true) :
    b.store latency .ctrl v =
      { transfer { b with held := Function.update b.held .ctrl (BitFields.insert v 7 1 0) } with
        pending := some (latency b.count), count := b.count + 1 } := by
  rw [store, if_pos hv]

theorem answer_held {r : BusRegister} (hstat : r ≠ .stat) (hb : b.pending = none) : b.answer r = some (b.held r) := by
  cases r <;> first | contradiction | simp [answer, hb]

theorem load_eq {r : BusRegister} (hstat : r ≠ .stat) : b.load r = b := by
  cases r <;> first | rfl | contradiction

/-- A read of the IC at its address. -/
theorem transfer_read (hcmd : b.held .cmd = 0x8b)
    (haddress : (BitFields.extract (b.held .saddr) 16 8).setWidth 8 = b.address) :
    b.transfer = { b with
      held := Function.update b.held .data ((b.chip ((b.held .daddr).toNat % 256)).setWidth 32) } := by
  simp [transfer, hcmd, haddress]

/-- A write to the IC at its address. -/
theorem transfer_write (hcmd : b.held .cmd = 0x4e)
    (haddress : (BitFields.extract (b.held .saddr) 16 8).setWidth 8 = b.address) :
    b.transfer = { b with
      chip := Function.update b.chip ((b.held .daddr).toNat % 256) ((b.held .data).setWidth 8) } := by
  simp [transfer, hcmd, haddress]

end Rsb

/-- The board has the controller at its addresses. -/
class Wired [Board] where
  latency : Nat → Nat
  /-- The controller before it is first accessed. -/
  initial : Rsb
  ram : ∀ r : BusRegister, Board.ram r.addr = false
  device : ∀ r : BusRegister, Board.device r.addr = true
  answer : ∀ ts (r : BusRegister), Board.answer ts r.addr = (ts.foldl (Rsb.step latency) initial).answer r

/-- The controller after what the devices have been told. -/
def controller [Board] [Wired] (io : Io) : Rsb := io.transfers.foldl (Rsb.step Wired.latency) Wired.initial

section Accesses

variable [Board] [Wired] {io : Io}

theorem access_bus (r : BusRegister) : access 4 r.addr = .device := by
  have haligned : r.addr % 4 = 0 := by cases r <;> decide
  rw [access, if_neg (not_not_intro haligned), Wired.ram r, Wired.device r]
  rfl

theorem store_access_bus (r : BusRegister) : store_access 4 r.addr = .device := by
  rw [store_access, access_bus]

theorem controller_store (r : BusRegister) (v : Cell) :
    controller (io.store 4 r.addr v) = (controller io).store Wired.latency r v := by
  simp [controller, Io.store, Rsb.step, BusRegister.ofAddr?_addr]

/-- What is loaded from a register that is known. -/
theorem load_bus {r : BusRegister} {v : Cell} (h : (controller io).answer r = some v) :
    io.load 4 r.addr = (v, (io.load 4 r.addr).2) ∧ (io.load 4 r.addr).2.sent = io.sent ∧
      controller (io.load 4 r.addr).2 = (controller io).load r := by
  have hanswer : Board.answer io.transfers r.addr = some v := (Wired.answer ..).trans h
  simp [Io.load, hanswer, controller, Rsb.step, BusRegister.ofAddr?_addr]

end Accesses

end Allwinner.Power
