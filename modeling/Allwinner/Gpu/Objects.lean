import Mathlib.Algebra.GroupWithZero.Nat
import Mathlib.Data.Fintype.Pi
import Mathlib.Data.List.AList
import Mathlib.Logic.Function.Basic

/-!
# Objects of the GPU driver

Buffers and their bookkeeping: a `Buffer_object` of the worker, a `Gpu_vram` that
other sessions may name by capability, and a `Vram_local` in each session that
knows the buffer. Objects that others refer to by reference or capability have a
number; the capability of nothing is invalid.
-/

namespace Allwinner.Gpu

abbrev VramId := Nat

/-- A capability, by the number of the `Gpu_vram`. -/
abbrev Cap := Option Nat

abbrev IdSpace (α : Type) := AList fun _ : VramId => α

-- ---------------------------------------------------------------------------
-- Requests
-- ---------------------------------------------------------------------------

/-- `Operation::Type`; `gemOpen` and `gemClose` are `OPEN` and `CLOSE`. -/
inductive OperationType where
  | invalid | alloc | free | exec | wait | ctxCreate | ctxFree | syncobjCreate | syncobjDestroy
  | syncobjWait | gemClose | gemOpen | flink
  deriving DecidableEq, Repr

abbrev MAX_PIPE : Nat := 2

instance : NeZero MAX_PIPE := ⟨Nat.succ_ne_zero 1⟩

/-- One value for each pipe. -/
abbrev Pipes := Fin MAX_PIPE → Nat

structure Operation where
  type : OperationType := .invalid
  size : Nat := 0
  va : Nat := 0
  id : VramId := 0
  seqno : Nat := 0
  handle : Nat := 0
  name : Nat := 0
  ctxId : Nat := 0
  op : Nat := 0
  syncobjId : Pipes := fun _ => 0
  deriving DecidableEq

structure Request where
  operation : Operation := {}
  success : Bool := false
  deriving DecidableEq

/-- `Request::create`. -/
def Request.create (type : OperationType) : Request := { operation := { type } }

def Request.valid (r : Request) : Bool := r.operation.type ≠ .invalid

-- ---------------------------------------------------------------------------
-- Buffers
-- ---------------------------------------------------------------------------

structure BufferObject where
  /-- tells the objects of a session apart -/
  serial : Nat
  handle : Nat
  va : Nat

/-- Where a `Gpu_vram` is: at the entrypoint, dissolved and destroyed, or still at the
entrypoint while its memory went with the heap of its session. -/
inductive VramState where
  | managed | dissolved | lost
  deriving DecidableEq, Repr

structure GpuVram where
  /-- the serial number of the owner's `Buffer_object` -/
  bo : Nat
  owner : Nat
  importName : Option Nat := none
  state : VramState := .managed

structure VramLocal where
  vramCap : Cap
  exportName : Option Nat := none
  importHandle : Option Nat := none

-- ---------------------------------------------------------------------------
-- Sessions
-- ---------------------------------------------------------------------------

/-- `Session_component`. -/
structure Session where
  /-- `_worker_buffers` -/
  buffers : IdSpace BufferObject := ∅
  vramLocals : IdSpace VramLocal := ∅
  nextSerial : Nat := 0
  pending : Request := {}
  completed : Request := {}
  ctxId : Nat := 0
  syncId : Pipes := fun _ => 0
  pendingSyncobjWait : Bool := false
  pendingWait : Bool := false

/-- `lookup_vram_cap`. -/
def Session.lookupVramCap (s : Session) (id : VramId) : Cap := (s.vramLocals.lookup id).bind (·.vramCap)

structure World where
  sessions : Nat → Option Session := fun _ => none
  nextSession : Nat := 0
  vrams : Nat → Option GpuVram := fun _ => none
  nextVram : Nat := 0
  crashed : Bool := false

inductive Fault where
  /-- access to a `Gpu_vram`, or its `Buffer_object`, that is no more -/
  | vanished
  /-- access through the capability of no `Gpu_vram` -/
  | noVram
  deriving DecidableEq, Repr

theorem bind_ok {x : Except Fault α} {f : α → Except Fault β} :
    x >>= f = .ok b ↔ ∃ a, x = .ok a ∧ f a = .ok b := by
  cases x <;> simp [bind, Except.bind]

theorem pure_ok : (pure a : Except Fault α) = .ok b ↔ a = b := by
  simp [pure, Except.pure]

namespace World

variable (w : World)

def put (sid : Nat) (s : Session) : World :=
  { w with sessions := Function.update w.sessions sid (some s) }

def setVram (g : Nat) (v : GpuVram) : World :=
  { w with vrams := Function.update w.vrams g (some v) }

/-- `Rpc_entrypoint::apply` with a functor that takes its argument for a `Gpu_vram`. -/
def apply : Cap → Except Fault GpuVram
  | none => .error .noVram
  | some g =>
    match w.vrams g with
    | none => .error .noVram
    | some v => if v.state = .managed then .ok v else .error .vanished

/-- The `Buffer_object` a `Gpu_vram` refers to still exists. -/
def hasBo (v : GpuVram) : Bool :=
  match w.sessions v.owner with
  | none => false
  | some s => s.buffers.entries.any fun e => e.2.serial = v.bo

/-- `Vram_local_space::with_bo` of session `s`, with a functor that accesses the buffer
object if `access` is set. Tells whether the functor was called. -/
def withBo (s : Session) (id : VramId) (access : Bool) : Except Fault Bool :=
  match s.vramLocals.lookup id with
  | none => .ok false
  | some vl => do
    let v ← w.apply vl.vramCap
    if access && !w.hasBo v then .error .vanished else .ok true

end World

end Allwinner.Gpu
