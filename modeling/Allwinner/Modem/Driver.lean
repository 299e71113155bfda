import Allwinner.Library.Runs
import Allwinner.Modem.Control
import Allwinner.Modem.ReadBuffer

/-!
# AT-protocol driver

`Driver.apply` and the other public entry points, and the system they form: an
event is one call, and the log records the lines the status saw, the
configurations applied and the commands submitted. `send_command_to_modem` is
public only for the test of the driver and is left out, as are reports.
-/

namespace Allwinner.Modem

open Library (System)

structure Driver (maxLineLen : Nat) where
  readBuffer : ReadBuffer maxLineLen := {}
  status : Status
  control : Control := {}
  currentCall : Option Call := none

/-- A call of the driver. An `apply` comes with what the reads of the response
channel return. -/
inductive Event where
  | apply (config : Config) (responses : List Text)
  | invalidateCallList
  | cancelCommand
  deriving DecidableEq

/-- What a call does in the sight of modem and user. -/
inductive Obs where
  /-- a line processed while `pending` was the pending command -/
  | line (l : Text) (pending : Option Command)
  /-- a configuration, the status it meets and the operations after the pass -/
  | configured (config : Config) (status : Status) (control : Control)
  /-- a command submitted under `config`, with the status at that moment -/
  | submitted (config : Config) (status : Status) (submission : Control.Submission)
  | canceled (command : Command)

/-- The observation is a submission that `p` holds of. -/
def Obs.submits (p : Config → Status → Control.Submission → Bool) : Obs → Bool
  | .submitted config status submission => p config status submission
  | _ => false

theorem Obs.exists_submitted {log : List Obs} {p : Config → Status → Control.Submission → Bool}
    (h : log.any (submits p) = true) :
    ∃ config st s, submitted config st s ∈ log ∧ p config st s = true := by
  obtain ⟨o, ho, hp⟩ := List.any_eq_true.mp h
  cases o with
  | submitted config st s => exact ⟨config, st, s, ho, hp⟩
  | _ => cases hp

namespace Driver

variable {maxLineLen : Nat} (scan : Scanner)

/-- A fresh driver whose settings are all unknown. -/
def init (maxLineLen : Nat) (settings : List (Qcfg.Name × Qcfg.Value)) : Driver maxLineLen :=
  { status := { qcfg := settings.map fun (name, value) => { name, value } } }

/-- The lines a batch of responses completes. -/
def linesOf (d : Driver maxLineLen) (responses : List Text) : List Text :=
  (d.readBuffer.receive responses).1

/-- The status after the lines. -/
def received (d : Driver maxLineLen) (responses : List Text) : Status :=
  d.status.applyLines scan (d.linesOf responses)

/-- `Driver::apply`. -/
def apply (d : Driver maxLineLen) (config : Config) (responses : List Text) :
    Driver maxLineLen × Option Control.Submission :=
  let origNoCarrierCount := d.status.noCarrierCount
  let status := d.received scan responses
  let (control, submission) := d.control.applyConfig status config
  let status := match submission with
    | none => status
    | some s => status.commandSubmitted s.command
  -- invalidate current-call information on disconnect
  let currentCall :=
    if origNoCarrierCount ≠ status.noCarrierCount then none else d.currentCall
  -- import current-call information from updated call list
  let currentCall := if status.clccUpToDate then status.currentCall else currentCall
  ({ readBuffer := (d.readBuffer.receive responses).2, status, control, currentCall }, submission)

def invalidateCallList (d : Driver maxLineLen) : Driver maxLineLen :=
  { d with status := { d.status with clccUpToDate := false } }

/-- `Driver::cancel_command`. It ends with `at_ok` unset, so that the next
command submitted is the readiness probe. -/
def cancelCommand (d : Driver maxLineLen) : Driver maxLineLen :=
  let d := match d.status.pendingCommand with
    | none => d
    | some _ =>
      { d with control := d.control.cancelCommand, status := d.status.commandCanceled }
  { d with status := { d.status with atOk := false } }

def responseOutstanding (d : Driver maxLineLen) : Bool := d.status.pendingCommand.isSome

def outbound (d : Driver maxLineLen) : Bool := d.control.isOutbound

def poweringDown (d : Driver maxLineLen) : Bool :=
  d.control.powerDownScheduled && !d.status.poweredDown

def poweredDown (d : Driver maxLineLen) : Bool := d.status.poweredDown

-- ---------------------------------------------------------------------------
-- The driver as a system
-- ---------------------------------------------------------------------------

/-- The lines of a batch, each with the command pending when it arrives. -/
def lineObs (s : Status) : List Text → List Obs
  | [] => []
  | l :: ls => .line l s.pendingCommand :: lineObs (s.applyLine scan l) ls

/-- A relation between log and status that each line keeps is kept by a batch. -/
theorem lineObs_invariant {scan : Scanner} {I : List Obs → Status → Prop} {s : Status} {h : List Obs}
    {ls : List Text}
    (hstep : ∀ h s l, I h s → I (h ++ [.line l s.pendingCommand]) (s.applyLine scan l))
    (hinit : I h s) : I (h ++ lineObs scan s ls) (s.applyLines scan ls) := by
  induction ls generalizing h s with
  | nil => simpa [lineObs, Status.applyLines] using hinit
  | cons l ls ih => simpa [lineObs, Status.applyLines] using ih (hstep h s l hinit)

def step (d : Driver maxLineLen) : Event → Driver maxLineLen × List Obs
  | .apply config responses =>
    let r := d.apply scan config responses
    let status := d.received scan responses
    let control := d.control.pass status config
    (r.1, lineObs scan d.status (d.linesOf responses)
      ++ .configured config status control :: r.2.toList.map (.submitted config status))
  | .invalidateCallList => (d.invalidateCallList, [])
  | .cancelCommand =>
    (d.cancelCommand, d.status.pendingCommand.toList.map .canceled)

def system (maxLineLen : Nat) : System (Driver maxLineLen) Event Obs := ⟨step scan⟩

/-- An `apply` under which the modem completes the line `l`. -/
def answer (l : Text) (config : Config := {}) : Event := .apply config [l ++ "\r\n".toList]

/-- The modem comes up, has no PIN to ask for, and is asked for its calls. -/
def startup : List Event :=
  [.apply {} [], answer lineOk, answer lineOk, .apply {} ["+CPIN: READY\r\nOK\r\n".toList]]

end Driver

end Allwinner.Modem
