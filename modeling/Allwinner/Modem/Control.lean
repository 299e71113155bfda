import Mathlib.Logic.Function.Basic
import Allwinner.Modem.Status

/-!
# Control

The operations the driver keeps in flight, and one pass of
`Control::apply_config` over them. An operation is indexed by its kind, so the
slot of a kind can hold only an operation of that kind. The report and the log
are left out.
-/

namespace Allwinner.Modem

abbrev Pin := Str 8
abbrev Power := Str 16

-- ---------------------------------------------------------------------------
-- Configuration
-- ---------------------------------------------------------------------------

/-- The `<call>` node of a configuration with its raw attributes. -/
structure CallNode where
  number : Option Text := none
  state : Option Text := none
  deriving DecidableEq

/-- What `Control` reads of a configuration node: attributes, and the first
`<call>` and `<ring>` node. -/
structure Config where
  pin : Option Text := none
  power : Option Text := none
  call : Option CallNode := none
  ring : Option Text := none
  deriving DecidableEq

/-- `attribute_value` with an empty string as default. -/
def attributeValue (N : Nat) (a : Option Text) : Str N :=
  match a with
  | none => .empty
  | some t => .ofText N t

namespace CallNode

def hasState (c : CallNode) (expected : Text) : Bool :=
  (attributeValue 32 c.state).chars = expected

def accepted (c : CallNode) : Bool := c.state.isNone || c.hasState "accepted".toList

def numberValue (c : CallNode) : Number := attributeValue 50 c.number

end CallNode

def Config.pinValue (c : Config) : Pin := attributeValue 8 c.pin

def Config.powerValue (c : Config) : Power := attributeValue 16 c.power

-- ---------------------------------------------------------------------------
-- Operations
-- ---------------------------------------------------------------------------

/-- The operation slots, in the order `_apply_to_operations` visits them. -/
inductive Kind where
  | checkReady | disableEcho | powerDown | ring | setPin | requestPinState | requestPinCount
  | reboot | queryQcfg | assignQcfg | hangUp | requestCallList | initiateCall | acceptCall
  deriving DecidableEq, Repr

def Kind.all : List Kind :=
  [.checkReady, .disableEcho, .powerDown, .ring, .setPin, .requestPinState, .requestPinCount,
   .reboot, .queryQcfg, .assignQcfg, .hangUp, .requestCallList, .initiateCall, .acceptCall]

theorem Kind.mem_all (k : Kind) : k ∈ Kind.all := by cases k <;> decide

/-- The operation structures with their constant members. -/
inductive Request : Kind → Type where
  | checkReady : Request .checkReady
  | disableEcho : Request .disableEcho
  | powerDown : Request .powerDown
  | ring (command : Command) : Request .ring
  | setPin (pin : Pin) : Request .setPin
  | requestPinState : Request .requestPinState
  | requestPinCount : Request .requestPinCount
  | reboot : Request .reboot
  | queryQcfg (name : Qcfg.Name) : Request .queryQcfg
  | assignQcfg (name : Qcfg.Name) (value : Qcfg.Value) : Request .assignQcfg
  | hangUp : Request .hangUp
  | requestCallList : Request .requestCallList
  | initiateCall (number : Number) : Request .initiateCall
  | acceptCall : Request .acceptCall

/-- `"AT+CPIN="` and the PIN. -/
def setPinCommand (pin : Pin) : Command := Command.ofText ("AT+CPIN=".toList ++ pin.chars)

/-- `"ATD"`, the number and a semicolon. -/
def dialCommand (n : Number) : Command := Command.ofText ("ATD".toList ++ n.chars ++ ";".toList)

/-- `Operation::command`. -/
def Request.command : Request k → Command
  | .checkReady => Command.ofText atCheckReady
  | .disableEcho => Command.ofText "ATE0".toList
  | .powerDown => Command.ofText atPowerDown
  | .ring command => command
  | .setPin pin => setPinCommand pin
  | .requestPinState => Command.ofText "AT+CPIN?".toList
  | .requestPinCount => Command.ofText "AT+QPINC?".toList
  | .reboot => Command.ofText "AT+CFUN=1,1".toList
  | .queryQcfg name => Command.ofText (atQcfgPrefix ++ "\"".toList ++ name.chars ++ "\"".toList)
  | .assignQcfg name value =>
    Command.ofText (atQcfgPrefix ++ "\"".toList ++ name.chars ++ "\",".toList ++ value.chars)
  | .hangUp => Command.ofText atHangUp
  | .requestCallList => Command.ofText atRequestCallList
  | .initiateCall number => dialCommand number
  | .acceptCall => Command.ofText atAcceptCall

/-- `Operation::State`; no statement of the source assigns `TIMED_OUT`. -/
inductive OpState where
  | pending | submitted
  deriving DecidableEq, Repr

structure Operation (k : Kind) where
  request : Request k
  state : OpState := .pending

/-- The `Constructible` operation of each kind. -/
abbrev Ops := (k : Kind) → Option (Operation k)

def Ops.isSubmitted (ops : Ops) (k : Kind) : Bool := (ops k).any (·.state = .submitted)

def Ops.isPending (ops : Ops) (k : Kind) : Bool := (ops k).any (·.state = .pending)

-- ---------------------------------------------------------------------------
-- State
-- ---------------------------------------------------------------------------

structure OutboundInfo where
  call : Call
  noCarrierCount : UInt32
  deriving DecidableEq

structure Control where
  ops : Ops := fun _ => none
  currentPin : Pin := .empty
  currentRingCount : UInt32 := 0
  outboundInfo : Option OutboundInfo := none

namespace Control

def constructed (c : Control) (k : Kind) : Bool := (c.ops k).isSome

/-- `Constructible::construct`, which replaces an operation already there. -/
def construct (c : Control) (r : Request k) : Control :=
  { c with ops := Function.update c.ops k (some { request := r }) }

def destruct (c : Control) (k : Kind) : Control :=
  { c with ops := Function.update c.ops k none }

def destructIf (c : Control) (b : Bool) (k : Kind) : Control := if b then c.destruct k else c

/-- `Constructible::conditional`. -/
def conditional (c : Control) (condition : Bool) (r : Request k) : Control :=
  if condition then (if c.constructed k then c else c.construct r) else c.destruct k

def constructIfAbsent (c : Control) (r : Request k) : Control :=
  if c.constructed k then c else c.construct r

def submitted (c : Control) (k : Kind) : Bool := c.ops.isSubmitted k

def pending (c : Control) (k : Kind) : Bool := c.ops.isPending k

def cancelAllOperations (c : Control) : Control := { c with ops := fun _ => none }

def anyOperationInFlight (c : Control) : Bool := Kind.all.any c.submitted

/-- The operation `_submit_one_pending_operation` hands to the command channel. -/
def nextPending (c : Control) : Option Kind := Kind.all.find? c.pending

/-- An operation that was handed to the command channel. -/
structure Submission where
  kind : Kind
  request : Request kind

def Submission.command (s : Submission) : Command := s.request.command

def submitOnePendingOperation (c : Control) : Control × Option Submission :=
  match c.nextPending with
  | none => (c, none)
  | some k =>
    match c.ops k with
    | none => (c, none)
    | some op =>
      ({ c with ops := Function.update c.ops k (some { op with state := .submitted }) },
        some ⟨k, op.request⟩)

/-- The first submitted operation is complete once the status saw `OK`. -/
def completeOperation (st : Status) (c : Control) : Control :=
  if st.ok then
    match Kind.all.find? c.submitted with
    | none => c
    | some k => c.destruct k
  else c

def cancelCommand (c : Control) : Control :=
  { c with ops := fun k => if c.submitted k then none else c.ops k }

def outbound (c : Control) (number : Number) : Bool :=
  c.outboundInfo.any (·.call.number = number)

def rejected (st : Status) (c : Control) (number : Number) : Bool :=
  c.outboundInfo.any fun i => i.call.number = number ∧ i.noCarrierCount ≠ st.noCarrierCount

def readyForTelephony (st : Status) : Bool := st.cpin.any (·.chars = "READY".toList)

-- ---------------------------------------------------------------------------
-- One pass over the configuration
-- ---------------------------------------------------------------------------

variable (st : Status)

/-- The `failed` of `_apply_pin`. -/
def pinRequestFailed (c : Control) (k : Kind) : Bool := c.submitted k && st.cmeError.isSome

def applyPin (pin : Pin) (c : Control) : Control :=
  let c := c.destructIf (c.pinRequestFailed st .requestPinState) .requestPinState
  if c.pinRequestFailed st .setPin then
    (c.destruct .setPin).constructIfAbsent .requestPinCount
  else
    match st.cpin with
    -- pin status not yet known
    | none => c.constructIfAbsent .requestPinState
    | some cpin =>
      -- modem does not ask for a SIM PIN
      if cpin.chars ≠ "SIM PIN".toList then c
      else if pin.chars = [] then c
      else if pin = c.currentPin then c
      else { c with currentPin := pin }.construct (.setPin pin)

def applyPower (power : Power) (c : Control) : Control :=
  -- retry failed power-down command, which can happen during modem startup
  let c := c.destructIf (c.submitted .powerDown && st.error) .powerDown
  if power.chars = "off".toList ∧ ¬ st.poweredDown then c.constructIfAbsent .powerDown else c

def keepCallListUpToDate (c : Control) : Control :=
  if ¬ readyForTelephony st then c
  else if st.clccUpToDate then c.destruct .requestCallList
  else c.constructIfAbsent .requestCallList

/-- An initiated call got cancelled. -/
def hangUpInitiated (config : Config) (c : Control) : Control :=
  let rejected := config.call.any (·.hasState "rejected".toList)
  if c.outboundInfo.isSome ∧ (config.call.isNone ∨ rejected) then
    { c with outboundInfo := none }.construct .hangUp
  else c

def applyHangUp (config : Config) (c : Control) : Control :=
  -- hang up in progress
  if c.constructed .hangUp then c
  else
    let c := c.hangUpInitiated config
    -- reject incoming or active call
    if config.call.any (·.hasState "rejected".toList) ∧
        st.currentCall.any (fun call => call.incoming || call.active) then
      c.construct .hangUp
    else c

/-- The outbound bookkeeping follows the call the modem lists. -/
def noteListedCall (c : Control) : Control :=
  match st.currentCall with
  | none => c
  | some call => { c with outboundInfo := c.outboundInfo.map fun i => { i with call } }

/-- An incoming call is accepted, whatever number the node names. -/
def acceptIncomingCall (node : CallNode) (c : Control) : Control :=
  if st.currentCall.any (·.incoming) ∧ node.accepted then c.constructIfAbsent .acceptCall else c

/-- Number in config changed. -/
def forgetOtherNumber (number : Number) (c : Control) : Control :=
  if c.outboundInfo.any (·.call.number ≠ number) then { c with outboundInfo := none } else c

def initiateCall (node : CallNode) (c : Control) : Control :=
  let number := node.numberValue
  let idle := st.currentCall.isNone
  if idle ∧ node.accepted ∧ ¬ c.rejected st number ∧ ¬ c.outbound number then
    if c.constructed .initiateCall then c
    else
      let info : OutboundInfo :=
        { call := { number, stat := .dialing }, noCarrierCount := st.noCarrierCount }
      { c.construct (.initiateCall number) with outboundInfo := some info }
  else c

def applyCall (node : CallNode) (c : Control) : Control :=
  if ¬ readyForTelephony st then c
  -- initiate or accept calls only with up-to-date current-call info
  else if ¬ st.clccUpToDate then c
  else
    let c := c.noteListedCall st
    let c := c.acceptIncomingCall st node
    let c := c.forgetOtherNumber node.numberValue
    c.initiateCall st node

def applyRing (ring : Text) (c : Control) : Control :=
  if c.currentRingCount ≠ st.ringCount then
    { c with currentRingCount := st.ringCount }.construct (.ring (Command.ofText ring))
  else c

def queryUnknown (qcfg : Qcfg) (c : Control) : Control :=
  let c := c.destructIf (c.submitted .queryQcfg && st.error) .queryQcfg
  if c.constructed .queryQcfg then c
  else match qcfg.anyUnknownEntry with
    | none => c
    | some e => c.construct (.queryQcfg e.name)

def assignMismatching (qcfg : Qcfg) (c : Control) : Control :=
  if c.constructed .assignQcfg then c
  else match qcfg.anyMismatchingEntry with
    | none => c
    | some e => c.construct (.assignQcfg e.name e.value)

/-- Reboot the modem to make changed settings effective. -/
def rebootIfNeeded (qcfg : Qcfg) (c : Control) : Control :=
  if ¬ c.constructed .reboot ∧ qcfg.rebootNeeded then
    { c.cancelAllOperations.construct .reboot with currentPin := .empty }
  else c

def applyQcfg (qcfg : Qcfg) (c : Control) : Control :=
  ((c.queryUnknown st qcfg).assignMismatching qcfg).rebootIfNeeded qcfg

/-- The part of `_apply_config` behind the guards. -/
def applySettings (config : Config) (c : Control) : Control :=
  let c := c.applyQcfg st st.qcfg
  let c := c.applyPin st config.pinValue
  let c := c.applyPower st config.powerValue
  let c := c.applyHangUp st config
  let c := c.keepCallListUpToDate st
  let c := match config.call with
    | none => c
    | some node => c.applyCall st node
  match config.ring with
    | none => c
    | some ring => c.applyRing st ring

/-- `Control::_apply_config`. -/
def applyConfigNode (config : Config) (c : Control) : Control :=
  -- don't issue AT commands during modem reboot
  if c.constructed .reboot ∨ ¬ st.rdy then c
  else
    -- disable echo to avoid mixing up URC content with commands
    let c := c.conditional (!st.echoDisabled && st.atOk) .disableEcho
    if ¬ st.echoDisabled then c else c.applySettings st config

/-- What `apply_config` does before it submits. -/
def pass (config : Config) (c : Control) : Control :=
  let c := c.completeOperation st
  -- issue 'AT' command until we get the response 'OK'
  let c := c.conditional (!st.atOk) .checkReady
  c.applyConfigNode st config

/-- `Control::apply_config`. -/
def applyConfig (config : Config) (c : Control) : Control × Option Submission :=
  let c := c.pass st config
  if c.anyOperationInFlight then (c, none) else c.submitOnePendingOperation

def commandTimeoutMs (c : Control) : Nat :=
  -- according to the Quectel documentation
  if c.submitted .hangUp then 90 * 1000 else 600

def isOutbound (c : Control) : Bool := c.outboundInfo.isSome

def powerDownScheduled (c : Control) : Bool := c.constructed .powerDown

end Control

end Allwinner.Modem
