import Allwinner.Library.ListModel
import Allwinner.Modem.Text
import Mathlib.Logic.Function.Basic

/-!
# Pin declarations

What the A64 pin driver reads from a node of its configuration, and the registers
it programs. Each item of a register array has an entry of its own; an index
beyond the array has no register, and writes to it have no effect.
-/

namespace Allwinner.Pio

open Library (ListModel)
open Modem (Text Str)

-- ---------------------------------------------------------------------------
-- Nodes
-- ---------------------------------------------------------------------------

/-- The conversions of attribute values are not part of the repository. -/
structure Formats where
  unsigned : Text → Option UInt32
  bool : Text → Option Bool

/-- Decimal numbers, and the spellings of truth values. -/
def plainFormats : Formats where
  unsigned t :=
    if t ≠ [] ∧ t.all Char.isDigit then
      some (t.foldl (fun n c => n * 10 + .ofNat (c.toNat - '0'.toNat)) 0)
    else none
  bool t := if t = "yes".toList ∨ t = "true".toList ∨ t = "on".toList ∨ t = "1".toList then some true
    else if t = "no".toList ∨ t = "false".toList ∨ t = "off".toList ∨ t = "0".toList then some false
    else none

structure Node where
  type : Text
  name : Option Text := none
  bank : Option Text := none
  index : Option Text := none
  pull : Option Text := none
  function : Option Text := none
  irq : Option Text := none
  default : Option Text := none
  deriving DecidableEq

/-- `attribute_value` with a default. -/
def attributeValue (parse : Text → Option α) (a : Option Text) (default : α) : α :=
  match a with
  | none => default
  | some t => (parse t).getD default

/-- `attribute_value` of a `String<N>`. -/
def attributeString (N : Nat) (a : Option Text) : Str N :=
  match a with
  | none => .empty
  | some t => .ofText N t

/-- The classes `Invalid`. -/
inductive Invalid where
  | bank | index | function | pull | irqTrigger
  deriving DecidableEq, Repr

abbrev Name := Str 32

def Name.fromNode (node : Node) : Name := attributeString 32 node.name

inductive Bank where
  | b | c | d | e | f | g | h | l
  deriving DecidableEq, Repr

def Bank.fromNode (node : Node) : Except Invalid Bank :=
  match (attributeString 2 node.bank).chars with
  | ['B'] => .ok .b
  | ['C'] => .ok .c
  | ['D'] => .ok .d
  | ['E'] => .ok .e
  | ['F'] => .ok .f
  | ['G'] => .ok .g
  | ['H'] => .ok .h
  | ['L'] => .ok .l
  | _ => .error .bank

/-- Pin index within bank. -/
abbrev Index := UInt32

def Index.fromNode (fmt : Formats) (node : Node) : Except Invalid Index :=
  if node.index = none then .error .index else .ok (attributeValue fmt.unsigned node.index 0)

/-- Unique physical identifier of a pin. -/
structure PinId where
  bank : Bank
  index : Index
  deriving DecidableEq, Repr

def PinId.fromNode (fmt : Formats) (node : Node) : Except Invalid PinId := do
  let bank ← Bank.fromNode node
  let index ← Index.fromNode fmt node
  return { bank, index }

/-- `Pin::Direction`. -/
inductive Direction where
  | input | output
  deriving DecidableEq, Repr

/-- `Pin::Level`. -/
inductive Level where
  | low | high | highImpedance
  deriving DecidableEq, Repr

inductive Function where
  | input | output | fn2 | fn3 | fn4 | fn5 | irq | disable
  deriving DecidableEq, Repr

/-- The cast of a number to `Function::Value`. -/
def Function.ofNumber (n : UInt32) : Function :=
  match n.toNat with
  | 0 => .input
  | 1 => .output
  | 2 => .fn2
  | 3 => .fn3
  | 4 => .fn4
  | 5 => .fn5
  | 6 => .irq
  | _ => .disable

def Function.fromNode (fmt : Formats) (node : Node) : Except Invalid Function :=
  if node.type = "in".toList then .ok (if node.irq.isSome then .irq else .input)
  else if node.type = "out".toList then .ok .output
  else if node.type ≠ "select".toList then .error .function
  else
    let n := attributeValue fmt.unsigned node.function 7
    -- function number out of range
    if n > 7 then .error .function
    -- reserved for <in> pins
    else if n = 0 ∨ n = 6 then .error .function
    -- reserved for <out> pins
    else if n = 1 then .error .function
    else .ok (.ofNumber n)

def Function.direction (f : Function) : Direction := if f = .output then .output else .input

inductive Pull where
  | disable | up | down
  deriving DecidableEq, Repr

def Pull.fromNode (node : Node) : Except Invalid Pull :=
  if node.pull = none then .ok .disable
  else
    let value := (attributeString 10 node.pull).chars
    if value = "up".toList then .ok .up
    else if value = "down".toList then .ok .down
    else .error .pull

inductive IrqTrigger where
  | rising | falling | high | low | edges
  deriving DecidableEq, Repr

def IrqTrigger.fromNode (node : Node) : Except Invalid IrqTrigger :=
  if node.irq = none then .ok .rising
  else
    let value := (attributeString 10 node.irq).chars
    if value = "rising".toList then .ok .rising
    else if value = "falling".toList then .ok .falling
    else if value = "high".toList then .ok .high
    else if value = "low".toList then .ok .low
    else if value = "edges".toList then .ok .edges
    else .error .irqTrigger

/-- Pin attributes. -/
structure Attr where
  pull : Pull
  function : Function
  irqTrigger : IrqTrigger
  /-- activate output on access by `Pin_control` client -/
  outOnDemand : Bool
  defaultState : Level
  deriving DecidableEq, Repr

namespace Attr

def output (a : Attr) : Bool := a.function = .output

def irq (a : Attr) : Bool := a.function = .irq

def defaultStateFromNode (fmt : Formats) (node : Node) : Level :=
  if node.default = none then .highImpedance
  else if attributeValue fmt.bool node.default false then .high
  else .low

def fromNode (fmt : Formats) (node : Node) : Except Invalid Attr := do
  let pull ← Pull.fromNode node
  let function ← Function.fromNode fmt node
  let irqTrigger ← IrqTrigger.fromNode node
  return { pull, function, irqTrigger, outOnDemand := node.default.isNone,
           defaultState := defaultStateFromNode fmt node }

def disabled : Attr where
  pull := .disable
  function := .disable
  irqTrigger := .rising
  outOnDemand := false
  defaultState := .highImpedance

end Attr

-- ---------------------------------------------------------------------------
-- Registers
-- ---------------------------------------------------------------------------

/-- What the registers hold for one pin. -/
structure PinRegs where
  cfg : Function
  pull : Pull
  data : Bool
  irqTrigger : IrqTrigger
  deriving DecidableEq, Repr

/-- The bank has interrupt registers. -/
def Bank.hasIrqRegs : Bank → Bool
  | .b | .g | .h | .l => true
  | .c | .d | .e | .f => false

namespace PinRegs

/-- `Io_bank::configure` and `Irq_regs::configure`. -/
def configure (bank : Bank) (attr : Attr) (r : PinRegs) : PinRegs :=
  { r with
    cfg := attr.function
    pull := attr.pull
    irqTrigger := if bank.hasIrqRegs then attr.irqTrigger else r.irqTrigger }

/-- `Io_bank::state`. -/
def state (level : Level) (r : PinRegs) : PinRegs :=
  match level with
  | .highImpedance => { r with cfg := .input }
  | .high => { r with cfg := .output, data := true }
  | .low => { r with cfg := .output, data := false }

end PinRegs

/-- The registers of `Pio`. -/
abbrev Registers := PinId → PinRegs

/-- The pin is one of the 32 of its bank. -/
def PinId.physical (id : PinId) : Bool := id.index < 32

namespace Registers

def write (pio : Registers) (id : PinId) (f : PinRegs → PinRegs) : Registers :=
  if id.physical then Function.update pio id (f (pio id)) else pio

def configure (pio : Registers) (id : PinId) (attr : Attr) : Registers := pio.write id (.configure id.bank attr)

def state (pio : Registers) (id : PinId) (level : Level) : Registers := pio.write id (.state level)

/-- All pins disabled. -/
def disabled : Registers :=
  fun _ => { cfg := .disable, pull := .disable, data := false, irqTrigger := .rising }

variable {pio : Registers} {id id' : PinId}

theorem write_of_ne (h : id' ≠ id) (f : PinRegs → PinRegs) : pio.write id f id' = pio id' := by
  unfold write
  split
  · exact Function.update_of_ne h _ _
  · rfl

theorem write_self (h : id.physical = true) (f : PinRegs → PinRegs) :
    pio.write id f id = f (pio id) := by
  simp [write, h]

end Registers

-- ---------------------------------------------------------------------------
-- Declarations
-- ---------------------------------------------------------------------------

/-- Pin information obtained from the configuration. -/
structure PinDeclaration where
  name : Name
  id : Option PinId := none
  attr : Attr := .disabled
  refCount : UInt32 := 0
  deriving DecidableEq

namespace PinDeclaration

variable (fmt : Formats)

def typeMatches (node : Node) : Bool :=
  (node.type = "in".toList || node.type = "out".toList || node.type = "select".toList) && node.name.isSome

/-- `matches` of a node. -/
def matchesNode (pin : PinDeclaration) (node : Node) : Except Invalid Bool :=
  if typeMatches node && pin.name = Name.fromNode node then
    (Function.fromNode fmt node).map fun f => pin.attr.function.direction = f.direction
  else .ok false

/-- What a node declares, unless the declaration is malformed. -/
def parse (node : Node) : Except Invalid (PinId × Attr) := do
  let id ← PinId.fromNode fmt node
  let attr ← Attr.fromNode fmt node
  return (id, attr)

/-- The pin of the declaration is disabled, if there is one. -/
def reset (pin : PinDeclaration) (pio : Registers) : Registers :=
  match pin.id with
  | some id => pio.configure id .disabled
  | none => pio

def updateFromNode (pin : PinDeclaration) (node : Node) (pio : Registers) : PinDeclaration × Registers :=
  match parse fmt node with
  | .ok (newId, attr) =>
    -- reset original pin if physical location has changed
    let idChanged := pin.id.any (· ≠ newId)
    let pio := if idChanged then pin.reset pio else pio
    let output := attr.output
    let onDemandOutput := output && attr.outOnDemand
    let pio := if !onDemandOutput then pio.configure newId attr else pio
    let configuredDefaultOutput := output && !attr.outOnDemand
    let pio :=
      if pin.refCount = 0 ∧ configuredDefaultOutput = true then pio.state newId attr.defaultState else pio
    ({ pin with id := some newId, attr }, pio)
  -- malformed pin declaration
  | .error _ => ({ pin with id := none, attr := .disabled }, pin.reset pio)

/-- `matches` of a physical pin. -/
def matchesPin (pin : PinDeclaration) (id : PinId) (dir : Direction) : Bool :=
  pin.id = some id && dir = pin.attr.function.direction

/-- The callback that destroys a declaration. -/
def destroy (pin : PinDeclaration) (pio : Registers) : Registers := pin.reset pio

/-- The callbacks of `_handle_config`. -/
def model : ListModel PinDeclaration Node Invalid Registers where
  typeMatches := typeMatches
  matching := matchesNode fmt
  create node := { name := Name.fromNode node }
  update pin node := pin.updateFromNode fmt node
  destroy := destroy

end PinDeclaration

end Allwinner.Pio
