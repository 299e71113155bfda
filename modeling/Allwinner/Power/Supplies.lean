import Allwinner.Power.Driver

/-!
# Supplies

Three supplies and the settings of the power driver share registers of the power-management IC, some
of them a register. In whatever order they are requested, each supply is as it was switched last.
-/

namespace Allwinner.Power

open Library Memory
open Scp
open Library.RegisterFile (Registers Field Write Layout last last_append getLsbD_writes)

/-- The supplies of the platform driver. -/
inductive Supply
  | gpio0_ldo | csi_power | wifi_power
  deriving DecidableEq

def Supply.command : Supply → Bool → Command
  | gpio0_ldo, on => if on then gpio0_ldo_on else gpio0_ldo_off
  | csi_power, on => if on then csi_power_on else csi_power_off
  | wifi_power, on => if on then wifi_power_on else wifi_power_off

/-- What the drivers do about power. -/
inductive Action
  | switch (s : Supply) (on : Bool)
  | service (q : Service)
  | configure_ts_pin | increase_vhold | increase_charge_limit | enable_gauge | soft_restart | power_disable

namespace Action

def request : Action → Request
  | switch s on => .command (s.command on)
  | service q => .service q
  | configure_ts_pin => .command Power.configure_ts_pin
  | increase_vhold => .command Power.increase_vhold
  | increase_charge_limit => .command Power.increase_charge_limit
  | enable_gauge => .command Power.enable_gauge
  | soft_restart => .command Power.soft_restart
  | power_disable => .command Power.power_disable

def all : List Action :=
  [.switch .gpio0_ldo true, .switch .gpio0_ldo false, .switch .csi_power true, .switch .csi_power false,
    .switch .wifi_power true, .switch .wifi_power false, .service .power_info, .service .clear_pmic_irqs,
    .configure_ts_pin, .increase_vhold, .increase_charge_limit, .enable_gauge, .soft_restart, .power_disable]

theorem mem_all (a : Action) : a ∈ all := by
  cases a with
  | switch s on => cases s <;> cases on <;> simp [all]
  | service q => cases q <;> simp [all]
  | _ => simp [all]

end Action

/-- What a run sets in the IC. -/
def trace (as : List Action) : List (Write 8) := as.flatMap fun a => a.request.writes

def fields : List Field := (trace Action.all).map Prod.fst

theorem trace_fields {as : List Action} : ∀ w ∈ trace as, w.1 ∈ fields ∧ w.2.toNat < 2 ^ w.1.width := by
  have hall : ∀ a ∈ Action.all, ∀ w ∈ a.request.writes, w.1 ∈ fields ∧ w.2.toNat < 2 ^ w.1.width := by
    decide +kernel
  intro w hw
  obtain ⟨a, -, hmem⟩ := List.mem_flatMap.mp hw
  exact hall a a.mem_all w hmem

/-- Whether an action switches a supply, and how. -/
def Action.switches (s : Supply) : Action → Option Bool
  | .switch t on => if t = s then some on else none
  | _ => none

/-- How a supply was switched last. -/
def switched (s : Supply) (as : List Action) : Option Bool := (as.filterMap (Action.switches s)).getLast?

theorem switched_concat (s : Supply) (as : List Action) (a : Action) :
    switched s (as ++ [a]) = (a.switches s).or (switched s as) := by
  rw [switched, List.filterMap_append, List.getLast?_append]
  cases h : a.switches s <;> simp [h, switched]

theorem trace_concat (as : List Action) (a : Action) : trace (as ++ [a]) = trace as ++ a.request.writes := by
  rw [trace, List.flatMap_append, List.flatMap_singleton]
  rfl

/-- A command sets a field once. -/
theorem last_own (s : Supply) (on : Bool) :
    ∀ w ∈ (s.command on).writes, last w.1 (s.command on).writes = some w.2 := by
  cases s <;> cases on <;> decide +kernel

/-- No other action sets it. -/
theorem last_foreign {s : Supply} {on : Bool} {w : Write 8} (hw : w ∈ (s.command on).writes) {a : Action}
    (ha : a.switches s = none) : last w.1 a.request.writes = none := by
  have hall : ∀ w ∈ (s.command on).writes, ∀ a ∈ Action.all, a.switches s = none →
      last w.1 a.request.writes = none := by
    cases s <;> cases on <;> decide +kernel
  exact hall w hw a a.mem_all ha

theorem switches_eq {s : Supply} {a : Action} {on : Bool} (h : a.switches s = some on) : a = .switch s on := by
  cases a with
  | switch t on' =>
    obtain ⟨rfl, heq⟩ := Option.ite_none_right_eq_some.mp h
    rw [Option.some.inj heq]
  | _ => cases h

/-- What was set last is from how the supply was switched last. -/
theorem last_trace (s : Supply) (as : List Action) :
    (∀ on, switched s as = some on → ∀ w ∈ (s.command on).writes, last w.1 (trace as) = some w.2) ∧
    (switched s as = none → ∀ on, ∀ w ∈ (s.command on).writes, last w.1 (trace as) = none) := by
  induction as using List.reverseRecOn with
  | nil => exact ⟨fun _ h => (by cases h), fun _ _ _ _ => rfl⟩
  | append_singleton as a ih =>
    rw [switched_concat]
    simp only [trace_concat, last_append]
    cases h : a.switches s with
    | none =>
      refine ⟨fun on hon w hw => ?_, fun hnone on w hw => ?_⟩
      · rw [last_foreign hw h, ih.1 on hon w hw]
        rfl
      · rw [last_foreign hw h, ih.2 hnone on w hw]
        rfl
    | some on' =>
      refine ⟨fun on hon w hw => ?_, fun hnone => by cases hnone⟩
      obtain rfl : on' = on := Option.some.inj hon
      rw [switches_eq h, show (Action.switch s on').request.writes = (s.command on').writes from rfl,
        last_own s on' w hw]
      rfl

namespace Soc

local instance : Board := board
local instance : Sram := ⟨board_sram⟩
local instance : Wired := wired

end Soc

end Allwinner.Power
