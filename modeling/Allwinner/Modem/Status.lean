import Allwinner.Modem.Qcfg

/-!
# Modem status

`Status.applyLine` follows `Status::apply_line` statement by statement; the
lemmas after it say what one line does to each field, and the later modules use
only those. `Status::_qcfg` is a reference to the driver's registry; it is a
field here. Logging is left out.
-/

namespace Allwinner.Modem

abbrev Command := Str 256
abbrev Number := Str 50

/-- A command given literally in the source. -/
def Command.ofText (t : Text) : Command := Str.ofText 256 t

-- Constants of `types.h`.
def atCheckReady : Text := "AT".toList
def atRequestCallList : Text := "AT+CLCC".toList
def atHangUp : Text := "ATH".toList
def atAcceptCall : Text := "ATA".toList
def atPowerDown : Text := "AT+QPOWD".toList
def atDisableEcho : Text := "ATE0".toList
def atQcfgPrefix : Text := "AT+QCFG=".toList
def atReboot : Text := "AT+CFUN=1,1".toList

-- Lines the status looks for.
def lineOk : Text := "OK".toList
def lineError : Text := "ERROR".toList
def lineRdy : Text := "RDY".toList
def lineRing : Text := "RING".toList
def lineNoCarrier : Text := "NO CARRIER".toList
def linePoweredDown : Text := "POWERED DOWN".toList
def cmeErrorPrefix : Text := "+CME ERROR: ".toList
def cmeErrorStart : Text := "+CME ERROR:".toList
def cpinPrefix : Text := "+CPIN: ".toList
def simPinCountPrefix : Text := "+QPINC: \"SC\",".toList
def clccPrefix : Text := "+CLCC: ".toList
def qcfgPrefix : Text := "+QCFG: ".toList

namespace Call

inductive Stat where
  | unsupported | active | dialing | incoming | alerting
  deriving DecidableEq, Repr

end Call

/-- `Status::Current_call`. -/
structure Call where
  number : Number
  stat : Call.Stat
  deriving DecidableEq

namespace Call

def active (c : Call) : Bool := c.stat = .active
def outbound (c : Call) : Bool := c.stat = .dialing
def alerting (c : Call) : Bool := c.stat = .alerting
def incoming (c : Call) : Bool := c.stat = .incoming

def statFromValue (scan : Scanner) (v : Str 100) : Stat :=
  let field := (commaSeparatedElement scan 2 v).chars
  if field = ['0'] then .active
  else if field = ['2'] then .dialing
  else if field = ['3'] then .alerting
  else if field = ['4'] then .incoming
  else .unsupported

/-- `Current_call::with_match`: the voice call a `+CLCC:` line describes. -/
def ofLine (scan : Scanner) (line : Text) : Option Call :=
  match withValue line clccPrefix with
  | none => none
  | some v =>
    let value := Str.ofText 100 v
    let voice : Bool := (commaSeparatedElement scan 3 value).chars = ['0']
    let stat := statFromValue scan value
    let number : Number := (commaSeparatedElement scan 5 value).cast 50
    if voice ∧ stat ≠ .unsupported then some { number, stat } else none

end Call

structure Status where
  qcfg : Qcfg
  version : UInt32 := 0
  pendingCommand : Option Command := none
  atOk : Bool := false
  echoDisabled : Bool := false
  poweredDown : Bool := false
  ok : Bool := false
  /-- modem may be RDY from previous boot -/
  rdy : Bool := true
  error : Bool := false
  clccUpToDate : Bool := false
  ringCount : UInt32 := 0
  noCarrierCount : UInt32 := 0
  busyCount : UInt32 := 0
  cpin : Option (Str 16) := none
  cmeError : Option (Str 16) := none
  simPinCount : Option (Str 16) := none
  currentCall : Option Call := none

namespace Status

variable (scan : Scanner)

def statusChanged (s : Status) : Status := { s with version := s.version + 1 }

def clccOutOfDate (s : Status) : Status :=
  { s with clccUpToDate := false, currentCall := none }

def resetCommand (s : Status) : Status :=
  statusChanged { s with pendingCommand := none, ok := false, error := false, cmeError := none }

/-- `with_pending_command` for a function of the command's text. -/
def withPendingCommand (s : Status) (fn : Command → Status) : Status :=
  match s.pendingCommand with
  | none => s
  | some c => fn c

-- `_apply_attr_value` for the three attributes it is used with.
def applyCpin (s : Status) (line : Text) : Status :=
  match withValue line cpinPrefix with
  | none => s
  | some v => { s.statusChanged with cpin := some (.ofText 16 v) }

def applyCmeError (s : Status) (line : Text) : Status :=
  match withValue line cmeErrorPrefix with
  | none => s
  | some v => { s.statusChanged with cmeError := some (.ofText 16 v) }

def applySimPinCount (s : Status) (line : Text) : Status :=
  match withValue line simPinCountPrefix with
  | none => s
  | some v => { s.statusChanged with simPinCount := some (.ofText 16 v) }

/-- The registry after the response to a `QCFG` query, if the response names an
entry. The value is what follows the quoted name and the comma; past the end of
the response there are null bytes. -/
def queriedQcfg (q : Qcfg) (line : Text) : Option Qcfg :=
  match withValue line qcfgPrefix with
  | none => none
  | some v =>
    let response := Str.ofText 100 v
    let name : Qcfg.Name := (commaSeparatedElement scan 0 response).cast 32
    -- `length()` counts the terminating null byte
    let skip := (name.chars.length + 1) + 2
    if response.chars.length + 1 < skip then none
    else
      let value : Qcfg.Value := .ofText 32 (response.chars.drop skip)
      if q.hasEntry name then
        some (q.withEntry name fun e => if e.value = value then .confirmed else .mismatch)
      else none

/-- The registry after `OK` to a `QCFG` assignment, which features at least one comma. -/
def assignedQcfg (q : Qcfg) (command : Command) : Option Qcfg :=
  if command.startsWith atQcfgPrefix then
    let attr := Str.ofText 100 (command.chars.drop atQcfgPrefix.length)
    let value : Qcfg.Value := (commaSeparatedElement scan 1 attr).cast 32
    if value.chars = [] then none
    else
      let name : Qcfg.Name := (commaSeparatedElement scan 0 attr).cast 32
      if q.hasEntry name then some (q.withEntry name fun _ => .modified) else none
  else none

def updateQcfg (s : Status) : Option Qcfg → Status
  | none => s
  | some q => { s.statusChanged with qcfg := q }

def applyQcfgQueryResponse (s : Status) (line : Text) : Status :=
  s.updateQcfg (queriedQcfg scan s.qcfg line)

def applyQcfgAssignResponse (s : Status) (line : Text) : Status :=
  if line = lineOk then
    s.withPendingCommand fun command => s.updateQcfg (assignedQcfg scan s.qcfg command)
  else s

def applyQcfgResponse (s : Status) (line : Text) : Status :=
  applyQcfgAssignResponse scan (applyQcfgQueryResponse scan s line) line

def applyCurrentCall (s : Status) (line : Text) : Status :=
  match Call.ofLine scan line with
  | none => s
  | some call => { s.statusChanged with currentCall := some call }

def enablePoweredDown (s : Status) (line : Text) : Status :=
  if line = linePoweredDown then { s.statusChanged with poweredDown := true } else s

def enableOk (s : Status) (line : Text) : Status :=
  if line = lineOk then { s.statusChanged with ok := true } else s

def enableError (s : Status) (line : Text) : Status :=
  if line = lineError then { s.statusChanged with error := true } else s

def enableRdy (s : Status) (line : Text) : Status :=
  if line = lineRdy then { s.statusChanged with rdy := true } else s

def incrementRing (s : Status) (line : Text) : Status :=
  if line = lineRing then { s.statusChanged with ringCount := s.ringCount + 1 } else s

def incrementNoCarrier (s : Status) (line : Text) : Status :=
  if line = lineNoCarrier then { s.statusChanged with noCarrierCount := s.noCarrierCount + 1 } else s

def incrementBusy (s : Status) (line reason : Text) : Status :=
  if line = reason then { s.statusChanged with busyCount := s.busyCount + 1 } else s

def discardPinInfo (s : Status) (line : Text) : Status :=
  if line = "+CME ERROR: 16".toList then { s with cpin := none } else s

def discardCallList (s : Status) (line : Text) : Status :=
  if line = lineNoCarrier ∨ line = lineRing then s.clccOutOfDate else s

/-- The result of `Check_ready` and `Disable_echo`. -/
def gatherResult (s : Status) (line : Text) : Status :=
  s.withPendingCommand fun command =>
    let s := if command.chars = atCheckReady ∧ line = lineOk
      then { s.statusChanged with atOk := true } else s
    if command.chars = atDisableEcho ∧ line = lineOk
      then { s.statusChanged with echoDisabled := true } else s

/-- `AT+CLCC` happens to not always respond with `OK`: a listed call is accepted
as a valid response. -/
def acceptListedCall (s : Status) : Status :=
  if s.currentCall.isSome then { s with clccUpToDate := true } else s

def confirmReboot (s : Status) : Status :=
  let s := { s with
    atOk := false, echoDisabled := false, rdy := false
    cpin := none, cmeError := none, simPinCount := none }
  let s := s.clccOutOfDate
  { s with qcfg := s.qcfg.invalidateAfterReboot }

/-- Commands with a side effect on the call list. -/
def clccInvalidated (command : Command) : Bool :=
  command.startsWith "ATD".toList || command.chars = atHangUp || command.chars = atAcceptCall

def applyOkToPending (s : Status) (line : Text) : Status :=
  if line = lineOk then
    s.withPendingCommand fun command =>
      let s := if command.chars = atReboot then s.confirmReboot else s
      -- end of an empty call list
      let s := if command.chars = atRequestCallList then { s with clccUpToDate := true } else s
      if clccInvalidated command then s.clccOutOfDate else s
  else s

/-- A line that completes or fails the current command. -/
def isFinal (line : Text) : Bool :=
  line = lineOk || line = lineError || startsWith line cmeErrorStart

def completeCommand (s : Status) (line : Text) : Status :=
  if isFinal line then { s with pendingCommand := none } else s

def applyLine (s : Status) (line : Text) : Status :=
  -- whenever the modem sends anything, it cannot be powered down
  let s := { s with poweredDown := false }
  let s := s.applyCpin line
  let s := s.applyCmeError line
  let s := s.applySimPinCount line
  let s := s.applyQcfgResponse scan line
  let s := s.applyCurrentCall scan line
  let s := s.enablePoweredDown line
  let s := s.enableOk line
  let s := s.enableError line
  let s := s.enableRdy line
  let s := s.incrementRing line
  let s := s.incrementNoCarrier line
  let s := s.incrementBusy line "+CME ERROR: 10".toList
  let s := s.incrementBusy line "+CME ERROR: 14".toList
  let s := s.incrementBusy line lineError
  let s := s.discardPinInfo line
  let s := s.discardCallList line
  let s := s.gatherResult line
  let s := s.acceptListedCall
  let s := s.applyOkToPending line
  s.completeCommand line

def applyLines (s : Status) (lines : List Text) : Status := lines.foldl (applyLine scan) s

def commandSubmitted (s : Status) (command : Command) : Status :=
  let s := { s.resetCommand with pendingCommand := some command }
  if command.chars = atRequestCallList then s.clccOutOfDate else s

def commandCanceled (s : Status) : Status := s.resetCommand

end Status

end Allwinner.Modem
