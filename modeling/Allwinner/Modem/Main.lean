import Allwinner.Modem.Driver
import Allwinner.Modem.Power

/-!
# Modem manager

`Modem::Main` runs the power driver and the AT-protocol driver in a loop until
both settle. Each iteration of the loop is an event of its own, so that a run
may stop within a handler; the member variables and the locals of the handler
are kept apart. Time is what the event timer measures; it only advances, by the
delay given with each reading. Reports and the verbosity are left out.
-/

namespace Allwinner.Modem

open Library (System)

/-- `ascii_to` for truth values is not part of the repository. -/
abbrev BoolFormat := Text → Option Bool

/-- The spellings of truth values. -/
def plainBool : BoolFormat := fun t =>
  if t = "yes".toList ∨ t = "true".toList ∨ t = "on".toList ∨ t = "1".toList then some true
  else if t = "no".toList ∨ t = "false".toList ∨ t = "off".toList ∨ t = "0".toList then some false
  else none

/-- The attributes the manager reads besides those of `Control`. -/
structure MainConfig extends Config where
  atProtocol : Option Text := none
  deriving DecidableEq

/-- `attribute_value` with a default. -/
def attributeBool (parse : BoolFormat) (a : Option Text) (default : Bool) : Bool :=
  match a with
  | none => default
  | some t => (parse t).getD default

inductive PowerState where
  | unknown
  /-- power driver in progress -/
  | poweringOn
  | atProtocol
  | atBusy
  /-- AT driver in progress -/
  | atShutdown
  /-- wait 1 sec after AT shutdown -/
  | atGraceDelay
  /-- power driver in progress -/
  | poweringOff
  | powerOff
  /-- entered only w/o AT driver -/
  | powerOn
  deriving DecidableEq, Repr

/-- The members of `Modem::Main`, and the time. -/
structure Main where
  clock : Nat := 0
  power : Power.State := .unknown
  /-- for shutdown_seconds counter -/
  shutdownTriggered : Nat := 0
  /-- for grace delay -/
  atPoweredDown : Nat := 0
  /-- for handling command timeouts -/
  lastAtProgress : Nat := 0
  powerState : PowerState := .unknown
  driver : Option (Driver 256) := none
  timerScheduled : Bool := false

/-- A value assigned to `_power_state`, and the time. -/
structure Entered where
  state : PowerState
  time : Nat
  deriving DecidableEq, Repr

/-- What an iteration of the loop meets. -/
structure Surroundings where
  /-- time that passes before the first reading of the timer -/
  delay : Nat := 0
  /-- time that passes between the first and the second reading -/
  later : Nat := 0
  /-- time that passes before the reading behind the loop -/
  final : Nat := 0
  /-- readings of the status pin -/
  status : Nat → Bool := fun _ => false
  /-- what a driver that was just constructed receives -/
  first : List Text := []
  /-- what the driver receives -/
  responses : List Text := []

/-- The settings the manager registers at the driver. -/
def mainSettings : List (Qcfg.Name × Qcfg.Value) := [(.ofText 32 "usbnet".toList, .ofText 32 "1".toList)]

namespace Main

variable (scan : Scanner) (parse : BoolFormat)

def enter (m : Main) (s : PowerState) : Main × List Entered :=
  ({ m with powerState := s }, [⟨s, m.clock⟩])

/-- Time passes. -/
def elapse (m : Main) (delay : Nat) : Main := { m with clock := m.clock + delay }

/-- `POWER_OFF` and `UNKNOWN`. -/
def triggerStartup (m : Main) (config : MainConfig) (i : Surroundings) : Main × List Entered :=
  if attributeBool parse config.power false = true then (m.elapse i.delay).enter .poweringOn
  else (m, [])

/-- `POWER_ON`. -/
def leavePowerOn (m : Main) (config : MainConfig) (i : Surroundings) : Main × List Entered :=
  if attributeBool parse config.power true = false then
    let m := m.elapse i.delay
    { m with shutdownTriggered := m.clock }.enter .poweringOff
  else (m, [])

/-- `AT_PROTOCOL` and `AT_BUSY`. -/
def triggerShutdown (m : Main) (config : MainConfig) (i : Surroundings) : Main × List Entered :=
  if attributeBool parse config.power true = false then
    let m := m.elapse i.delay
    let m := { m with shutdownTriggered := m.clock }
    match m.driver with
    | some d => if d.poweringDown || d.poweredDown then m.enter .atShutdown else (m, [])
    | none => m.enter .poweringOff
  else (m, [])

/-- What follows once the power driver has the modem on. -/
def startDriver (m : Main) (config : MainConfig) (i : Surroundings) : Main × List Entered :=
  if m.power = .on then
    if attributeBool parse config.atProtocol true then
      let d := (Driver.init 256 mainSettings).apply scan config.toConfig i.first
      { m with driver := some d.1 }.enter .atProtocol
    else m.enter .powerOn
  else (m, [])

/-- `POWERING_ON`, which falls through to allow triggering power-off during startup. -/
def driveStartup (m : Main) (config : MainConfig) (i : Surroundings) : Main × List Entered :=
  let m := { m with power := Power.powerEnabled .on i.status m.power }
  let (m, started) := m.startDriver scan parse config i
  let (m, stopped) := m.triggerShutdown parse config i
  (m, started ++ stopped)

/-- The AT driver is done, so the grace delay begins. -/
def completeAtShutdown (m : Main) (i : Surroundings) : Main × List Entered :=
  if m.driver.any (·.poweredDown) then
    let m := m.elapse i.delay
    { m with driver := none, atPoweredDown := m.clock }.enter .atGraceDelay
  else (m, [])

/-- Give up after getting no response to the AT shutdown request. -/
def giveUpAtShutdown (m : Main) (i : Surroundings) : Main × List Entered :=
  let m := m.elapse i.later
  if (m.clock - m.shutdownTriggered) / 1000 > 25 then m.enter .poweringOff else (m, [])

/-- `AT_SHUTDOWN`. -/
def driveAtShutdown (m : Main) (i : Surroundings) : Main × List Entered :=
  let (m, completed) := m.completeAtShutdown i
  let (m, givenUp) := m.giveUpAtShutdown i
  (m, completed ++ givenUp)

/-- `AT_GRACE_DELAY`. -/
def awaitGraceDelay (m : Main) (i : Surroundings) : Main × List Entered :=
  let m := m.elapse i.delay
  if m.clock - m.atPoweredDown ≥ 1000 then m.enter .poweringOff else (m, [])

/-- `POWERING_OFF`. -/
def drivePowerOff (m : Main) (i : Surroundings) : Main × List Entered :=
  let m := { m with power := Power.powerEnabled .off i.status m.power }
  if m.power = .off then m.enter .powerOff else (m, [])

/-- `_apply_power_state`. -/
def applyPowerState (m : Main) (config : MainConfig) (i : Surroundings) : Main × List Entered :=
  match m.powerState with
  | .powerOff => m.triggerStartup parse config i
  | .unknown => m.triggerStartup parse config i
  | .powerOn => m.leavePowerOn parse config i
  | .poweringOn => m.driveStartup scan parse config i
  | .atProtocol => m.triggerShutdown parse config i
  | .atBusy => m.triggerShutdown parse config i
  | .atShutdown => m.driveAtShutdown i
  | .atGraceDelay => m.awaitGraceDelay i
  | .poweringOff => m.drivePowerOff i

def startingUp (m : Main) : Bool := m.powerState = .poweringOn

def shuttingDown (m : Main) : Bool :=
  m.powerState = .atShutdown || m.powerState = .atGraceDelay || m.powerState = .poweringOff

/-- `_drive_at_protocol`. -/
def drivesAtProtocol (m : Main) : Bool := m.powerState = .atProtocol || m.powerState = .atShutdown

def applyDriver (m : Main) (config : MainConfig) (responses : List Text) : Main :=
  if m.drivesAtProtocol then
    { m with driver := m.driver.map fun d => (d.apply scan config.toConfig responses).1 }
  else m

def atVersion (m : Main) : UInt32 :=
  match m.driver with
  | some d => d.status.version
  | none => 0

def busyCount (m : Main) : UInt32 :=
  match m.driver with
  | some d => d.status.busyCount
  | none => 0

/-- The busy count differs from `orig`, unless the driver shuts the modem down. -/
def busy (m : Main) (orig : UInt32) : Bool :=
  m.driver.any fun d => !d.poweringDown && decide (orig ≠ d.status.busyCount)

def atResponseOutstanding (m : Main) : Bool := m.driver.any (·.responseOutstanding)

def outboundCall (m : Main) : Bool := m.driver.any (·.outbound)

/-- One iteration of the loop of `_handle_config`. -/
def iterate (m : Main) (config : MainConfig) (i : Surroundings) : Main × List Entered :=
  let (m, entered) := m.applyPowerState scan parse config i
  (m.applyDriver scan config i.responses, entered)

/-- `progress`: the power driver or the AT driver did something. -/
def progress (before after : Main) : Bool :=
  decide (before.power ≠ after.power) || decide (before.atVersion ≠ after.atVersion)

def needPolling (m : Main) : Bool :=
  m.startingUp || m.shuttingDown || m.outboundCall || m.powerState = .atBusy || m.atResponseOutstanding

end Main

/-- The locals of `_handle_config` that outlive an iteration. -/
structure MainLoop where
  config : MainConfig
  origAtVersion : UInt32
  origBusyCount : UInt32

namespace Main

/-- The override of the power state behind the loop. -/
def deferIfBusy (m : Main) (l : MainLoop) : Main × List Entered :=
  if m.busy l.origBusyCount then m.enter .atBusy else (m, [])

/-- The time of the last progress, and the timer. -/
def noteProgress (m : Main) (l : MainLoop) (i : Surroundings) : Main :=
  let m := if l.origAtVersion ≠ m.atVersion then
      let m := m.elapse i.final
      { m with lastAtProgress := m.clock }
    else m
  if m.needPolling then { m with timerScheduled := true } else m

/-- The rest of `_handle_config` behind the loop. -/
def finish (m : Main) (l : MainLoop) (i : Surroundings) : Main × List Entered :=
  let (m, entered) := m.deferIfBusy l
  (m.noteProgress l i, entered)

/-- `_handle_timer` up to its call of `_handle_config`. -/
def handleTimer (m : Main) (delay : Nat) : Main × List Entered :=
  let m := { m.elapse delay with timerScheduled := false }
  let (m, entered) := if m.powerState = .atBusy then m.enter .atProtocol else (m, [])
  -- update call list while placing an outbound call
  let m := if m.outboundCall then { m with driver := m.driver.map (·.invalidateCallList) } else m
  -- cancel timed-out command
  let m := { m with driver := m.driver.map fun d =>
    if d.responseOutstanding ∧ m.clock - m.lastAtProgress > d.control.commandTimeoutMs
    then d.cancelCommand else d }
  (m, entered)

/-- What `_handle_config` does ahead of its loop. -/
def startLoop (m : Main) (config : MainConfig) : MainLoop :=
  { config, origAtVersion := m.atVersion, origBusyCount := m.busyCount }

end Main

-- ---------------------------------------------------------------------------
-- The manager as a system
-- ---------------------------------------------------------------------------

inductive MainEvent where
  /-- the config handler runs, for a new configuration or because the modem sends data -/
  | config (config : MainConfig)
  /-- the timer handler runs -/
  | timer (config : MainConfig) (delay : Nat)
  /-- the loop of the handler goes on -/
  | iteration (i : Surroundings)

/-- The component: its members, and the handler that is under way. -/
structure Component where
  main : Main := {}
  loop : Option MainLoop := none

namespace Component

variable (scan : Scanner) (parse : BoolFormat)

/-- An iteration, and the end of the handler unless there is progress without the modem
being busy. -/
def iterate (m : Main) (l : MainLoop) (i : Surroundings) : Component × List Entered :=
  let (after, entered) := m.iterate scan parse l.config i
  if m.progress after ∧ ¬ after.busy l.origBusyCount then ({ main := after, loop := some l }, entered)
  else
    let (finished, overridden) := after.finish l i
    ({ main := finished }, entered ++ overridden)

/-- A signal waits for the handler under way, and there is no iteration without one. -/
def step (c : Component) : MainEvent → Component × List Entered
  | .config config =>
    match c.loop with
    | some _ => (c, [])
    | none => ({ c with loop := some (c.main.startLoop config) }, [])
  | .timer config delay =>
    match c.loop with
    | some _ => (c, [])
    | none =>
      let (m, entered) := c.main.handleTimer delay
      ({ main := m, loop := some (m.startLoop config) }, entered)
  | .iteration i =>
    match c.loop with
    | some l => iterate scan parse c.main l i
    | none => (c, [])

def system : System Component MainEvent Entered := ⟨step scan parse⟩

def onConfig : MainConfig := { power := some "on".toList }

def offConfig : MainConfig := { power := some "off".toList }

/-- The modem powers up and answers the probe. -/
def startup : List MainEvent :=
  [.config onConfig, .iteration {},
   .config onConfig, .iteration { status := fun n => n = 0 }, .iteration {},
   .config onConfig, .iteration { responses := ["OK\r\n".toList] }, .iteration {}]

/-- It is then told to power down. -/
def powerDown : List MainEvent :=
  [.config offConfig, .iteration { responses := ["OK\r\n".toList] }, .iteration {}]

end Component

end Allwinner.Modem
