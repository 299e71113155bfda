import Allwinner.Library.Runs
import Allwinner.Pio.Declaration

/-!
# A64 pin driver

The declarations of the driver, the sessions that Genode's pin session components
keep for it, and the system they form. A session asks for its pin by its label;
an update of the configuration assigns the sessions of each root anew. A session
whose pin changed releases the pin it had before it acquires the new one. An
exception that nobody catches ends the component. Interrupts and the values read
from pins are left out.
-/

namespace Allwinner.Pio

open Library (System)
open Modem (Text Str)

/-- The roots of the driver, in the order they are updated. -/
inductive SessionKind where
  | pinState | pinControl | irq
  deriving DecidableEq, Repr

def SessionKind.direction : SessionKind → Direction
  | .pinState => .input
  | .pinControl => .output
  | .irq => .input

structure Session where
  kind : SessionKind
  label : Text
  assigned : Option PinId := none
  deriving DecidableEq

/-- The session is assigned to the pin, for the direction. -/
def Session.uses (s : Session) (id : PinId) (dir : Direction) : Bool :=
  s.assigned = some id && s.kind.direction = dir

/-- The nodes of the configuration, and the attribute `pin` of the policy a session label
matches. -/
structure Config where
  nodes : List Node := []
  policy : Text → Option (Option Text) := fun _ => none

/-- What ends the component. -/
inductive Failure where
  | exception (e : Invalid)
  /-- an unconstructed object is dereferenced -/
  | dereference
  deriving DecidableEq, Repr

/-- The declarations, and the registers they are programmed to. -/
structure Pins where
  pins : List PinDeclaration := []
  pio : Registers

structure Main extends Pins where
  config : Config := {}
  sessions : List Session := []

namespace PinDeclaration

/-- The callback of `acquire_pin`. -/
def acquire (id : PinId) (pin : PinDeclaration) (pio : Registers) : PinDeclaration × Registers :=
  let pin := { pin with refCount := pin.refCount + 1 }
  let pio :=
    if pin.attr.output then
      if pin.attr.outOnDemand then pio.configure id pin.attr
      else pio.state id pin.attr.defaultState
    else pio
  let pio := if pin.attr.irq then pio.configure id pin.attr else pio
  (pin, pio)

/-- The callback of `release_pin`. -/
def release (id : PinId) (pin : PinDeclaration) (pio : Registers) : PinDeclaration × Registers :=
  let pin := { pin with refCount := pin.refCount - 1 }
  if pin.refCount > 0 then (pin, pio)
  else
    let pio :=
      if pin.attr.output then
        if pin.attr.outOnDemand then pio.configure id .disabled
        else pio.state id pin.attr.defaultState
      else pio
    let pio := if pin.attr.irq then pio.configure id .disabled else pio
    (pin, pio)

end PinDeclaration

/-- `_with_pin_declaration`. -/
def withPinDeclaration (id : PinId) (dir : Direction)
    (fn : PinDeclaration → Registers → PinDeclaration × Registers) :
    List PinDeclaration → Registers → List PinDeclaration × Registers
  | [], pio => ([], pio)
  | pin :: pins, pio =>
    let (pin, pio) := if pin.matchesPin id dir then fn pin pio else (pin, pio)
    let (pins, pio) := withPinDeclaration id dir fn pins pio
    (pin :: pins, pio)

namespace Pins

def acquirePin (p : Pins) (id : PinId) (dir : Direction) : Pins :=
  let (pins, pio) := withPinDeclaration id dir (PinDeclaration.acquire id) p.pins p.pio
  { pins, pio }

def releasePin (p : Pins) (id : PinId) (dir : Direction) : Pins :=
  let (pins, pio) := withPinDeclaration id dir (PinDeclaration.release id) p.pins p.pio
  { pins, pio }

/-- The loop of `assigned_pin`, from what it found so far; the last declaration counts. -/
def lookup (name : Name) (dir : Direction) : List PinDeclaration → Option PinId → Except Failure (Option PinId)
  | [], found => .ok found
  | pin :: pins, found =>
    if pin.name = name ∧ pin.attr.function.direction = dir then
      match pin.id with
      | some id => lookup name dir pins (some id)
      | none => .error .dereference
    else lookup name dir pins found

/-- `assigned_pin`; `none` is `Service_denied`. -/
def assignedPin (p : Pins) (config : Config) (label : Text) (dir : Direction) :
    Except Failure (Option PinId) :=
  match config.policy label with
  | none => .ok none
  | some pin => lookup (attributeString 32 pin) dir p.pins none

/-- A session gives up its pin, if it has one, and takes another. -/
def reassign (p : Pins) (s : Session) (new : Option PinId) : Pins :=
  let dir := s.kind.direction
  if s.assigned = new then p
  else
    let p := match s.assigned with
      | some id => p.releasePin id dir
      | none => p
    match new with
    | some id => p.acquirePin id dir
    | none => p

/-- `update_assignments` of one root. -/
def updateAssignments (config : Config) (kind : SessionKind) :
    List Session → Pins → Except Failure (List Session × Pins)
  | [], p => .ok ([], p)
  | s :: sessions, p =>
    if s.kind = kind then
      match p.assignedPin config s.label kind.direction with
      | .error e => .error e
      | .ok new =>
        (updateAssignments config kind sessions (p.reassign s new)).map fun (sessions, p) =>
          ({ s with assigned := new } :: sessions, p)
    else (updateAssignments config kind sessions p).map fun (sessions, p) => (s :: sessions, p)

end Pins

namespace Main

variable (fmt : Formats)

/-- The update of the pin declarations. -/
def updatePins (m : Main) (config : Config) : Except Failure Pins :=
  match (PinDeclaration.model fmt).updateFromNode config.nodes m.pins m.pio with
  | .error e => .error (.exception e)
  | .ok (pins, pio) => .ok { pins, pio }

/-- The sessions are assigned to pins anew. -/
def updateSessions (config : Config) (p : Pins) (sessions : List Session) : Except Failure Main := do
  let (sessions, p) ← p.updateAssignments config .pinState sessions
  let (sessions, p) ← p.updateAssignments config .pinControl sessions
  let (sessions, p) ← p.updateAssignments config .irq sessions
  return { toPins := p, config, sessions }

/-- `_handle_config`. -/
def handleConfig (m : Main) (config : Config) : Except Failure Main := do
  let p ← m.updatePins fmt config
  updateSessions config p m.sessions

/-- A session is created, unless no pin is assigned to it. -/
def createSession (m : Main) (kind : SessionKind) (label : Text) : Except Failure Main := do
  match ← m.assignedPin m.config label kind.direction with
  | none => return m
  | some id =>
    let session : Session := { kind, label, assigned := some id }
    return { m with
      toPins := m.acquirePin id kind.direction
      sessions := m.sessions ++ [session] }

/-- A session is closed. -/
def closeSession (m : Main) (n : Nat) : Main :=
  match m.sessions[n]? with
  | none => m
  | some s =>
    let p := match s.assigned with
      | some id => m.releasePin id s.kind.direction
      | none => m.toPins
    { m with toPins := p, sessions := m.sessions.eraseIdx n }

/-- `pin_state` on behalf of a session for control. -/
def setState (m : Main) (n : Nat) (level : Level) : Main :=
  match m.sessions[n]? with
  | some { kind := .pinControl, assigned := some id, .. } => { m with pio := m.pio.state id level }
  | _ => m

end Main

-- ---------------------------------------------------------------------------
-- The driver as a system
-- ---------------------------------------------------------------------------

inductive Event where
  | config (config : Config)
  | request (kind : SessionKind) (label : Text)
  | close (n : Nat)
  | state (n : Nat) (level : Level)

namespace Main

variable (fmt : Formats)

def handle (m : Main) : Event → Except Failure Main
  | .config config => m.handleConfig fmt config
  | .request kind label => m.createSession kind label
  | .close n => .ok (m.closeSession n)
  | .state n level => .ok (m.setState n level)

/-- Nothing happens any more after a failure. -/
def step (r : Except Failure Main) (e : Event) : Except Failure Main × List Empty := (r.bind (handle fmt · e), [])

def system : System (Except Failure Main) Event Empty := ⟨step fmt⟩

/-- The driver before it imports its first configuration. -/
def init (pio : Registers) : Except Failure Main := .ok { pio }

/-- The driver started with all pins disabled. -/
def start : Except Failure Main := init .disabled

end Main

end Allwinner.Pio
