import Allwinner.Modem.Text

/-!
# Persistent modem settings

The registry of settings the driver relies on. Each entry is queried, assigned
if the modem's value differs, and becomes effective by a reboot.
-/

namespace Allwinner.Modem

namespace Qcfg

abbrev Name := Str 32
abbrev Value := Str 32

inductive State where
  /-- current modem configuration still uncertain -/
  | unknown
  /-- is already consistent with the value -/
  | confirmed
  /-- differs from the value, assignment in progress -/
  | mismatch
  /-- got changed to the value, reboot needed -/
  | modified
  deriving DecidableEq, Repr

structure Entry where
  name : Name
  value : Value
  state : State := .unknown
  deriving DecidableEq

end Qcfg

/-- The entries in the order the registry visits them. -/
abbrev Qcfg := List Qcfg.Entry

namespace Qcfg

def anyEntryInState (q : Qcfg) (s : State) : Option Entry := q.find? (·.state = s)

def anyUnknownEntry (q : Qcfg) : Option Entry := q.anyEntryInState .unknown

def anyMismatchingEntry (q : Qcfg) : Option Entry := q.anyEntryInState .mismatch

/-- `with_entry`: changes the state of the first entry of that name. -/
def withEntry : Qcfg → Name → (Entry → State) → Qcfg
  | [], _, _ => []
  | e :: es, name, fn =>
    if e.name = name then { e with state := fn e } :: es else e :: withEntry es name fn

def hasEntry (q : Qcfg) (name : Name) : Bool := q.any (·.name = name)

/-- No reboot while querying or assigning values. -/
def rebootNeeded (q : Qcfg) : Bool :=
  let anyUnknown := q.any (·.state = .unknown)
  let anyMismatch := q.any (·.state = .mismatch)
  let anyModified := q.any (·.state = .modified)
  if anyUnknown || anyMismatch then false else anyModified

/-- Force new querying of the settings after a reboot. -/
def invalidateAfterReboot (q : Qcfg) : Qcfg := q.map ({ · with state := .unknown })

@[simp] theorem rebootNeeded_nil : rebootNeeded [] = false := rfl

theorem rebootNeeded_invalidate (q : Qcfg) : q.invalidateAfterReboot.rebootNeeded = false := by
  cases q <;> simp [invalidateAfterReboot, rebootNeeded]

end Qcfg

end Allwinner.Modem
