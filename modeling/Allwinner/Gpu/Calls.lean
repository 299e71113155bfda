import Mathlib.Data.Fin.VecNotation
import Allwinner.Library.Runs
import Allwinner.Gpu.Worker

/-!
# The RPC interface of the GPU driver

The functions of `Session_component` that clients call, its constructor and its
destructor, and the driver as a system of sessions, workers and kernel.
-/

namespace Allwinner.Gpu

open Library (System)

inductive Result where
  | done
  | bool (b : Bool)
  | cap (c : Cap)
  | seqno (n : Nat)
  | invalidState
  | outOfRam
  deriving DecidableEq, Repr

/-- What a call comes to: the world after it, what it returns or throws, and the requests
the worker finished. -/
structure Outcome where
  world : World
  result : Result
  finished : List Request := []

section Calls

variable (w : World) (sid : Nat) (s : Session) (env : Env)

-- ---------------------------------------------------------------------------
-- Requests
-- ---------------------------------------------------------------------------

/-- The request `complete` schedules. -/
def completeRequest (seqno : Nat) : Request :=
  { operation := { type := .syncobjWait, syncobjId := Function.update (fun _ => 0) 0 seqno } }

/-- The request `set_tiling_gpu` schedules. -/
def tilingRequest (id : VramId) (mode : Nat) : Request := { operation := { type := .wait, id, op := mode } }

def allocRequest (id : VramId) (size va : Nat) : Request := { operation := { type := .alloc, id, va, size } }

def freeRequest (id : VramId) (handle : Nat) : Request := { operation := { type := .free, id, handle } }

def closeRequest (id : VramId) (handle : Nat) : Request := { operation := { type := .gemClose, id, handle } }

def openRequest (name : Nat) : Request := { operation := { type := .gemOpen, name } }

def flinkRequest (id : VramId) : Request := { operation := { type := .flink, id } }

-- ---------------------------------------------------------------------------
-- Submission and waiting
-- ---------------------------------------------------------------------------

def execute (id : VramId) : Except Fault Outcome := do
  let a ← s.scheduleRequest w env { operation :=
    { type := .exec, id, ctxId := s.ctxId, syncobjId := s.syncId } }
  match a.result with
  | none => return ⟨w.put sid a.session, .invalidState, a.finished⟩
  | some r => return ⟨w.put sid a.session, .seqno r.operation.seqno, a.finished⟩

def complete (seqno : Nat) : Except Fault Outcome := do
  -- ignore any seqno we are not aware of
  if ∀ pipe, s.syncId pipe ≠ seqno then return ⟨w, .bool false, []⟩
  -- handle previous interrupted call
  if s.pendingSyncobjWait && s.pending.operation.type = .syncobjWait then return ⟨w, .bool false, []⟩
  if s.pendingSyncobjWait && s.completed.operation.type = .syncobjWait then
    return ⟨w.put sid { s with pendingSyncobjWait := false }, .bool s.completed.success, []⟩
  let a ← { s with pendingSyncobjWait := false }.scheduleRequest w env (completeRequest seqno)
  match a.result with
  | none => return ⟨w.put sid { a.session with pendingSyncobjWait := true }, .bool false, a.finished⟩
  | some r => return ⟨w.put sid a.session, .bool r.success, a.finished⟩

def setTilingGpu (id : VramId) (mode : Nat) : Except Fault Outcome := do
  -- handle previous interrupted call
  if s.pendingWait && s.pending.operation.type = .wait then return ⟨w, .bool false, []⟩
  if s.pendingWait && s.completed.operation.type = .wait then
    return ⟨w.put sid { s with pendingWait := false }, .bool s.completed.success, []⟩
  let a ← { s with pendingWait := false }.scheduleRequest w env (tilingRequest id mode)
  match a.result with
  | none => return ⟨w.put sid { a.session with pendingWait := true }, .bool false, a.finished⟩
  | some r => return ⟨w.put sid a.session, .bool r.success, a.finished⟩

-- ---------------------------------------------------------------------------
-- Buffers
-- ---------------------------------------------------------------------------

/-- The functor of `map_gpu` for the new buffer object: a `Gpu_vram` and a `Vram_local`,
or neither. -/
def book (id : VramId) (b : BufferObject) : World × Session × Bool :=
  if !env.newVram then (w, s, false)
  else
    let g := w.nextVram
    let w := { w with nextVram := g + 1 }
    let v : GpuVram := { bo := b.serial, owner := sid }
    if !env.newVramLocal || (s.vramLocals.lookup id).isSome then
      (w.setVram g { v with state := .dissolved }, s, false)
    else
      (w.setVram g v, { s with vramLocals := s.vramLocals.insert id { vramCap := some g } }, true)

def mapGpu (id : VramId) (size va : Nat) : Except Fault Outcome := do
  if (s.buffers.lookup id).isSome then return ⟨w, .bool false, []⟩
  if size > 2 ^ 32 - 1 then return ⟨w, .bool false, []⟩
  let a ← s.scheduleRequest w env (allocRequest id size (va % 2 ^ 32))
  if a.result.isNone then return ⟨w.put sid a.session, .bool false, a.finished⟩
  let (w, s, ret) := match a.session.buffers.lookup id with
    | none => (w, a.session, false)
    | some b => book w sid a.session env id b
  if ret then return ⟨w.put sid s, .bool true, a.finished⟩
  let b ← s.scheduleRequest w env (freeRequest id 0)
  return ⟨w.put sid b.session, .bool false, a.finished ++ b.finished⟩

/-- `_unmap_gpu`. -/
def unmapGpu (id : VramId) : Except Fault Outcome := do
  match s.vramLocals.lookup id with
  | none => return ⟨w, .bool false, []⟩
  | some vl =>
    match vl.vramCap with
    | none => return ⟨w, .bool false, []⟩
    | some g =>
      let v ← w.apply (some g)
      if v.owner ≠ sid then return ⟨w, .bool false, []⟩
      let w := w.setVram g { v with state := .dissolved }
      let s := { s with vramLocals := s.vramLocals.erase id }
      let a ← s.scheduleRequest w env (freeRequest id (vl.exportName.getD 0))
      return ⟨w.put sid a.session, .bool true, a.finished⟩

def unmapCpu (id : VramId) : Except Fault Outcome := do
  match s.vramLocals.lookup id with
  | none => return ⟨w, .done, []⟩
  | some vl =>
    match vl.exportName, vl.importHandle with
    | none, some handle =>
      let a ← s.scheduleRequest w env (closeRequest id handle)
      -- "it should be safe to destroy the vl in all cases"
      let s := { a.session with vramLocals := a.session.vramLocals.erase id }
      return ⟨w.put sid s, .done, a.finished⟩
    | _, _ => return ⟨w.put sid { s with vramLocals := s.vramLocals.erase id }, .done, []⟩

/-- The global name of a buffer, from the kernel unless the session has it. -/
def lookupExport (id : VramId) (vl : VramLocal) : Except Fault (Session × Option Nat × List Request) := do
  if vl.exportName.isSome then return (s, vl.exportName, [])
  let a ← s.scheduleRequest w env (flinkRequest id)
  match a.result with
  | none => return (a.session, none, a.finished)
  | some r =>
    let vl := { vl with exportName := some r.operation.name }
    let s := { a.session with vramLocals := a.session.vramLocals.insert id vl }
    return (s, vl.exportName, a.finished)

def exportVram (id : VramId) : Except Fault Outcome := do
  match s.vramLocals.lookup id with
  | none => return ⟨w, .cap none, []⟩
  | some vl =>
    let (s, exportName, finished) ← lookupExport w s env id vl
    if exportName.isNone then return ⟨w.put sid s, .cap none, finished⟩
    let v ← w.apply vl.vramCap
    let v := if v.importName.isNone then { v with importName := exportName } else v
    return ⟨((vl.vramCap.map fun g => w.setVram g v).getD w).put sid s, .cap vl.vramCap, finished⟩

/-- `import_vram` once there is a `Vram_local`. -/
def openImport (cap : Cap) (id : VramId) (vl : VramLocal) : Except Fault Outcome := do
  if vl.importHandle.isSome then return ⟨w.put sid s, .done, []⟩
  let v ← w.apply cap
  let a ← s.scheduleRequest w env (openRequest (v.importName.getD 0))
  match a.result with
  | none => return ⟨w.put sid a.session, .invalidState, a.finished⟩
  | some r =>
    let vl := { vl with importHandle := some r.operation.handle }
    let s := { a.session with vramLocals := a.session.vramLocals.insert id vl }
    return ⟨w.put sid s, .done, a.finished⟩

def importVram (cap : Cap) (id : VramId) : Except Fault Outcome :=
  match s.vramLocals.lookup id with
  | some vl => openImport w sid s env cap id vl
  | none =>
    if !env.newVramLocal then .ok ⟨w, .outOfRam, []⟩
    else
      let vl : VramLocal := { vramCap := cap }
      openImport w sid { s with vramLocals := s.vramLocals.insert id vl } env cap id vl

-- ---------------------------------------------------------------------------
-- Construction and destruction
-- ---------------------------------------------------------------------------

/-- The constructor, after the DRM session was opened: one context and a sync object for
each pipe, 0 where the kernel has none. -/
def construct (envs : Fin 3 → Env) : Except Fault (Session × List Request) := do
  let c ← Session.scheduleRequest w {} (envs 0) (.create .ctxCreate)
  let s : Session := { c.session with ctxId := (c.result.map fun r => r.operation.ctxId).getD 0 }
  let a ← s.scheduleRequest w (envs 1) (.create .syncobjCreate)
  let b ← a.session.scheduleRequest w (envs 2) (.create .syncobjCreate)
  let syncobj (x : Session.Scheduled) : Nat := (x.result.map fun r => r.operation.syncobjId 0).getD 0
  let syncId : Pipes := fun pipe => if pipe = 0 then syncobj a else syncobj b
  return ({ b.session with syncId }, c.finished ++ a.finished ++ b.finished)

/-- The destructor closes all imported handles. -/
def closeImported (s : Session) : List (Sigma fun _ : VramId => VramLocal) → Except Fault Session
  | [] => .ok s
  | ⟨id, vl⟩ :: entries =>
    match vl.exportName, vl.importHandle with
    | none, some handle => do
      let a ← s.scheduleRequest w env (closeRequest id handle)
      closeImported a.session entries
    | _, _ => closeImported s entries

/-- The loop of the destructor around `apply_any`, for the ids in turn: frees a buffer of
the session, and destroys what it imported. -/
def freeBuffers (w : World) : List VramId → Except Fault World
  | [] => .ok w
  | id :: ids =>
    match w.sessions sid with
    | none => .ok w
    | some s => do
      let erased := w.put sid { s with vramLocals := s.vramLocals.erase id }
      if ((s.vramLocals.lookup id).bind (·.importHandle)).isSome then freeBuffers erased ids
      else
        let a ← unmapGpu w sid s env id
        freeBuffers (if a.result = .bool true then a.world else erased) ids

/-- The destructor. What the session still has at the entrypoint goes with its heap. -/
def destruct : Except Fault World := do
  let s ← closeImported w env s s.vramLocals.entries
  let w ← freeBuffers sid env (w.put sid s) s.vramLocals.keys
  let vrams := fun g => (w.vrams g).map fun v =>
    if v.owner = sid ∧ v.state = .managed then { v with state := .lost } else v
  return { w with sessions := Function.update w.sessions sid none, vrams }

end Calls

-- ---------------------------------------------------------------------------
-- The system
-- ---------------------------------------------------------------------------

inductive Call where
  | execute (id : VramId)
  | complete (seqno : Nat)
  | setTilingGpu (id : VramId) (mode : Nat)
  | mapGpu (id : VramId) (size va : Nat)
  | unmapGpu (id : VramId)
  | unmapCpu (id : VramId)
  | exportVram (id : VramId)
  | importVram (cap : Cap) (id : VramId)
  deriving DecidableEq

def perform (w : World) (sid : Nat) (s : Session) (env : Env) : Call → Except Fault Outcome
  | .execute id => execute w sid s env id
  | .complete seqno => complete w sid s env seqno
  | .setTilingGpu id mode => setTilingGpu w sid s env id mode
  | .mapGpu id size va => mapGpu w sid s env id size va
  | .unmapGpu id => (unmapGpu w sid s env id).map fun a => { a with result := .done }
  | .unmapCpu id => unmapCpu w sid s env id
  | .exportVram id => exportVram w sid s env id
  | .importVram cap id => importVram w sid s env cap id

inductive Event where
  | openSession (envs : Fin 3 → Env)
  | closeSession (sid : Nat) (env : Env)
  | call (sid : Nat) (c : Call) (env : Env)
  /-- the kernel lets the wait of the worker return `err` -/
  | wake (sid : Nat) (err : Int)

inductive Obs where
  | finished (sid : Nat) (r : Request)
  | returned (sid : Nat) (c : Call) (result : Result)
  | fault (f : Fault)
  deriving DecidableEq

namespace World

def crash (w : World) (f : Fault) : World × List Obs := ({ w with crashed := true }, [.fault f])

def step (w : World) (e : Event) : World × List Obs :=
  if w.crashed then (w, [])
  else match e with
  | .openSession envs =>
    match construct w envs with
    | .error f => w.crash f
    | .ok (s, finished) =>
      ({ w with nextSession := w.nextSession + 1 }.put w.nextSession s,
        finished.map (.finished w.nextSession))
  | .closeSession sid env =>
    match w.sessions sid with
    | none => (w, [])
    | some s =>
      match destruct w sid s env with
      | .error f => w.crash f
      | .ok w => (w, [])
  | .call sid c env =>
    match w.sessions sid with
    | none => (w, [])
    | some s =>
      match perform w sid s env c with
      | .error f => w.crash f
      | .ok a => (a.world, a.finished.map (.finished sid) ++ [.returned sid c a.result])
  | .wake sid err =>
    match w.sessions sid with
    | none => (w, [])
    | some s => (w.put sid (s.wake err).1, (s.wake err).2.map (.finished sid))

end World

def gpu : System World Event Obs := ⟨World.step⟩

end Allwinner.Gpu
