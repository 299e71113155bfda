import Allwinner.Modem.PassLaws
import Allwinner.Modem.Shutdown

/-!
# The settle loop ends

While the modem is silent and its status pin steady, the handler of the manager
goes through few iterations. A silent modem leaves a submitted operation in
flight, so that the driver submits at most once; the power driver has nothing to
do after it was called once; and the power state only moves down.
-/

namespace Allwinner.Modem

open Library (System)

-- ---------------------------------------------------------------------------
-- An operation in flight
-- ---------------------------------------------------------------------------

namespace Control

variable {st st' : Status} {config : Config} {c c' : Control} {k : Kind}

/-- Operation `k` is in flight, and the passes with this status leave it there. -/
structure Waiting (st : Status) (config : Config) (c : Control) (k : Kind) : Prop where
  submitted : c.submitted k = true
  ok : st.ok = false
  error : st.error = false
  cmeError : st.cmeError = none
  probe : k = .checkReady → st.atOk = false
  echo : k = .disableEcho → c.constructed .reboot = false → st.rdy = true →
    st.atOk = true ∧ st.echoDisabled = false
  kept : c.settingsReached st = true → c.drops st config k = false

theorem constructed_reboot_applySettings (hdue : c.rebootDue st = false) :
    (c.applySettings st config).constructed .reboot = c.constructed .reboot := by
  refine constructed_congr ?_
  rw [applySettings_ops config (by decide), beforeRing_ops config (by decide),
    beforeCall_ops config (by decide)]
  exact (touches_applyQcfg hdue).ops _ (by decide)

/-- Behind the settings a PIN that is about to be entered is the configured one. -/
theorem pinChanged_applySettings (hdue : c.rebootDue st = false)
    (hk : (c.applySettings st config).constructed .setPin = true) :
    (c.applySettings st config).pinChanged st config.pinValue = false := by
  obtain ⟨hops, hpin⟩ := applySettings_pin st config c
  have hcur := (touches_applyQcfg hdue).currentPin
  rw [constructed_congr hops] at hk
  have hsame : (c.applySettings st config).pinChanged st config.pinValue =
      ((c.applyQcfg st st.qcfg).applyPin st config.pinValue).pinChanged st config.pinValue := by
    simp only [pinChanged, hpin]
  rw [hsame]
  generalize c.applyQcfg st st.qcfg = c₁ at hk
  by_cases hch : c₁.pinChanged st config.pinValue = true
  · by_cases hfail : c₁.submitted .setPin = false ∨ st.cmeError = none
    · simp [pinChanged, (applyPin_of_changed hch hfail).1]
    · simp only [not_or, Bool.not_eq_false] at hfail
      have hnone : (c₁.applyPin st config.pinValue).ops .setPin = none := by
        have hreq : ∀ c' : Control, c'.submitted .setPin = true → c'.pinRequestFailed st .setPin = true := by
          intro c' hs
          simp [pinRequestFailed, hs, Option.isSome_iff_ne_none.mpr hfail.2]
        unfold applyPin
        dsimp only
        rw [if_pos (hreq _ (by simp [hfail.1]))]
        simp
      simp [constructed, hnone] at hk
  · rcases applyPin_cases c₁ st config.pinValue with ⟨hkeep, -⟩ | ⟨h, -⟩
    · simpa [pinChanged, hkeep] using hch
    · exact absurd h hch

theorem currentRingCount_applySettings (h : config.ring.isSome) :
    (c.applySettings st config).currentRingCount = st.ringCount := by
  obtain ⟨ring, hring⟩ := Option.isSome_iff_exists.mp h
  rw [applySettings_eq, hring]
  dsimp only
  unfold applyRing
  split
  · rfl
  · rename_i heq
    simpa using heq

/-- Behind the settings no operation is given up that is there, for a status that differs in
its flags only. -/
theorem drops_applySettings (hq : st'.qcfg = st.qcfg) (hc : st'.cpin = st.cpin)
    (hr : st'.ringCount = st.ringCount) (he : st'.error = false) (hcme : st'.cmeError = none)
    (hlist : k = .requestCallList → (readyForTelephony st' && st'.clccUpToDate) = false)
    (hdue : c.rebootDue st = false) (hk : (c.applySettings st config).constructed k = true) :
    (c.applySettings st config).drops st' config k = false := by
  have hreboot : (c.applySettings st config).rebootDue st' = false := by
    rw [rebootDue, constructed_reboot_applySettings hdue, hq]
    exact hdue
  have hpin : (c.applySettings st config).pinChanged st' config.pinValue =
      (c.applySettings st config).pinChanged st config.pinValue := by
    simp only [pinChanged, hc]
  unfold drops
  rw [hreboot, Bool.false_or]
  cases k with
  | queryQcfg => exact he
  | powerDown => exact he
  | requestPinState => simp [hcme]
  | setPin =>
    simp only [hpin, pinChanged_applySettings hdue hk, hcme, Option.isSome_none, Bool.or_self]
  | requestCallList => exact hlist rfl
  | ring =>
    rw [hr]
    by_cases hring : config.ring.isSome
    · simp [currentRingCount_applySettings hring]
    · simp [hring]
  | _ => rfl

theorem rebootDue_of_drops (h : c.drops st config k = false) : c.rebootDue st = false := by
  unfold drops at h
  exact (Bool.or_eq_false_iff.mp h).1

theorem settingsReached_congr (h : c'.constructed .reboot = c.constructed .reboot) :
    c'.settingsReached st = c.settingsReached st := by
  simp [settingsReached, h]

/-- A pass leaves what is waited for in flight. -/
theorem Waiting.pass (h : Waiting st config c k) : Waiting st config (c.pass st config) k := by
  have htouch := touches_probe c st
  rw [completeOperation_of_not_ok h.ok] at htouch
  set c₁ := c.conditional (!st.atOk) .checkReady with hc₁
  have hpass : c.pass st config = c₁.applyConfigNode st config := by
    unfold Control.pass
    rw [completeOperation_of_not_ok h.ok]
  have hsub : c₁.submitted k = true := by
    rw [hc₁, submitted_conditional, h.submitted]
    by_cases hk : k = .checkReady
    · simp [h.probe hk]
    · simp [hk]
  have hreboot : c₁.constructed .reboot = c.constructed .reboot :=
    constructed_congr (htouch.ops _ (by decide))
  have hdrops : c₁.settingsReached st = true → c₁.drops st config k = false := by
    rw [settingsReached_congr hreboot, drops_congr hreboot htouch.currentPin htouch.currentRingCount]
    exact h.kept
  rw [hpass]
  rcases applyConfigNode_cases st config c₁ with ⟨-, he⟩ | ⟨hno, hrdy, hecho, he⟩ | ⟨hreached, he⟩
  · rw [he]
    exact ⟨hsub, h.ok, h.error, h.cmeError, h.probe, fun hk => hreboot ▸ h.echo hk, hdrops⟩
  · rw [he]
    have hsub' : (c₁.conditional st.atOk .disableEcho).submitted k = true := by
      rw [submitted_conditional, hsub]
      by_cases hk : k = .disableEcho
      · simp [(h.echo hk (hreboot ▸ hno) hrdy).1]
      · simp [hk]
    have hreboot' : (c₁.conditional st.atOk .disableEcho).constructed .reboot = c₁.constructed .reboot :=
      constructed_congr (conditional_ops_of_ne (by decide))
    refine ⟨hsub', h.ok, h.error, h.cmeError, h.probe, fun hk _ hr => h.echo hk (hreboot ▸ hno) hr, ?_⟩
    simp [settingsReached, hecho]
  · have hecho : st.echoDisabled = true ∧ st.rdy = true ∧ c.constructed .reboot = false := by
      simp only [settingsReached, Bool.and_eq_true, Bool.not_eq_true'] at hreached
      exact ⟨hreached.2, hreached.1.2, hreboot ▸ hreached.1.1⟩
    have hk : k ≠ .disableEcho := fun hk => by simp [(h.echo hk hecho.2.2 hecho.2.1).2] at hecho
    have hd : Touches [.disableEcho] c₁ (c₁.destruct .disableEcho) := .destruct (by simp)
    have hdrops' : (c₁.destruct .disableEcho).drops st config k = false := by
      rw [drops_congr (constructed_congr (hd.ops _ (by decide))) hd.currentPin hd.currentRingCount]
      exact hdrops hreached
    have hsub' : ((c₁.destruct .disableEcho).applySettings st config).submitted k = true := by
      rw [submitted_applySettings, hdrops', submitted_destruct, hsub]
      simp [hk]
    rw [he]
    refine ⟨hsub', h.ok, h.error, h.cmeError, h.probe, fun h => absurd h hk, fun _ => ?_⟩
    refine drops_applySettings rfl rfl rfl h.error h.cmeError ?_ (rebootDue_of_drops hdrops')
      (constructed_of_submitted hsub')
    rintro rfl
    simpa [drops, rebootDue_of_drops hdrops'] using hdrops'

/-- After a pass the probe is there exactly for a modem not known to be ready. -/
theorem atOk_of_checkReady (h : (c.pass st config).constructed .checkReady = true) : st.atOk = false := by
  set c₁ := (c.completeOperation st).conditional (!st.atOk) .checkReady with hc₁
  have hprobe : c₁.constructed .checkReady = !st.atOk := conditional_constructed
  have hpass : c.pass st config = c₁.applyConfigNode st config := rfl
  rw [hpass] at h
  rcases applyConfigNode_cases st config c₁ with ⟨-, he⟩ | ⟨-, -, -, he⟩ | ⟨-, he⟩
  · rw [he, hprobe] at h
    simpa using h
  · rw [he, constructed_congr (conditional_ops_of_ne (by decide)),
      hprobe] at h
    simpa using h
  · rw [he] at h
    obtain ⟨op, hop⟩ := constructed_iff.mp h
    rw [applySettings_ops_startup config (.inl rfl)] at hop
    split at hop
    · cases hop
    · rw [destruct_ops_of_ne (by decide)] at hop
      have : c₁.constructed .checkReady = true := constructed_iff.mpr ⟨op, hop⟩
      simpa [hprobe] using this

/-- What a pass gets to submit `ATE0` for, and what it leaves of its settings. -/
theorem pass_guards (c : Control) (st : Status) (config : Config)
    (hreboot : (c.pass st config).constructed .reboot = false) (hrdy : st.rdy = true) :
    ((c.pass st config).constructed .disableEcho = true → st.atOk = true ∧ st.echoDisabled = false) ∧
    (st.echoDisabled = true → ∃ c' : Control, c'.rebootDue st = false ∧
      c.pass st config = c'.applySettings st config) := by
  set c₁ := (c.completeOperation st).conditional (!st.atOk) .checkReady with hc₁
  have hpass : c.pass st config = c₁.applyConfigNode st config := rfl
  rw [hpass] at hreboot ⊢
  rcases applyConfigNode_cases st config c₁ with ⟨hstop, he⟩ | ⟨-, -, hecho, he⟩ | ⟨hreached, he⟩
  · rw [he] at hreboot
    simp [hreboot, hrdy] at hstop
  · rw [he]
    refine ⟨fun h => ?_, fun h => ?_⟩
    · rw [conditional_constructed] at h
      exact ⟨h, hecho⟩
    · simp [hecho] at h
  · have hdue : (c₁.destruct .disableEcho).rebootDue st = false := by
      by_contra hdue
      rw [he] at hreboot
      have := applySettings_reboot config (by simpa using hdue)
      simp [constructed, this] at hreboot
    rw [he]
    refine ⟨fun h => ?_, fun _ => ⟨_, hdue, rfl⟩⟩
    obtain ⟨op, hop⟩ := constructed_iff.mp h
    rw [applySettings_ops_startup config (.inr rfl), hdue] at hop
    simp at hop

/-- What was just submitted is waited for. -/
theorem waiting_submitted {r : Request k} (hop : (c.pass st config).ops k = some { request := r }) :
    Waiting (st.commandSubmitted r.command) config { c.pass st config with
      ops := Function.update (c.pass st config).ops k (some { request := r, state := .submitted }) } k := by
  set c' : Control := { c.pass st config with
    ops := Function.update (c.pass st config).ops k (some { request := r, state := .submitted }) } with hc'
  have hk : (c.pass st config).constructed k = true := constructed_iff.mpr ⟨_, hop⟩
  have hcon : ∀ j, c'.constructed j = (c.pass st config).constructed j := constructed_submit hop
  have heq := Status.commandSubmitted_eq st r.command
  refine ⟨by simp [hc', submitted, Ops.isSubmitted], ?_, ?_, ?_, ?_, ?_, ?_⟩
  · rw [heq]
  · rw [heq]
  · rw [heq]
  · rintro rfl
    have hprobe : st.atOk = false := atOk_of_checkReady hk
    rw [heq]
    exact hprobe
  · rintro rfl hreboot hrdy
    rw [heq] at hrdy ⊢
    exact (pass_guards c st config ((hcon _).symm.trans hreboot) hrdy).1 hk
  · intro hreached
    simp only [settingsReached, hcon, heq, Bool.and_eq_true, Bool.not_eq_true'] at hreached
    obtain ⟨⟨hreboot, hrdy⟩, hecho⟩ := hreached
    obtain ⟨c'', hdue, he⟩ := (pass_guards c st config hreboot hrdy).2 hecho
    have hsame : c'.drops (st.commandSubmitted r.command) config k =
        (c.pass st config).drops (st.commandSubmitted r.command) config k :=
      drops_congr (hcon _) rfl rfl
    rw [hsame, he]
    rw [he] at hk
    refine drops_applySettings (by rw [heq]) (by rw [heq]) (by rw [heq]) (by rw [heq]) (by rw [heq]) ?_ hdue hk
    rintro rfl
    have hlist : (st.commandSubmitted r.command).clccUpToDate = false := by
      cases r
      have hcommand : Request.requestCallList.command.chars = atRequestCallList := by decide
      rw [heq]
      simp [hcommand]
    simp [hlist]

end Control

-- ---------------------------------------------------------------------------
-- A silent modem
-- ---------------------------------------------------------------------------

/-- The modem delivers no data, and its status pin keeps the value `b`. -/
structure Surroundings.Silent (b : Bool) (i : Surroundings) : Prop where
  status : i.status = fun _ => b
  first : ∀ r ∈ i.first, r = []
  responses : ∀ r ∈ i.responses, r = []

theorem ReadBuffer.receive_silent {maxLineLen : Nat} (b : ReadBuffer maxLineLen) {responses : List Text}
    (h : ∀ r ∈ responses, r = []) : b.receive responses = ([], b) := by
  cases responses with
  | nil => rfl
  | cons r responses =>
    have hr : r = [] := h r (by simp)
    simp [receive, fill, hr]

namespace Driver

variable {scan : Scanner} {maxLineLen : Nat} {d : Driver maxLineLen} {config : Config} {responses : List Text}

/-- The driver waits for the modem. -/
def Waiting (config : Config) (d : Driver maxLineLen) : Prop :=
  ∃ k, d.control.Waiting d.status config k

/-- Without data a driver that waits goes on waiting, and any other call that submits a command ends
in waiting. -/
theorem apply_silent (scan : Scanner) (d : Driver maxLineLen) (config : Config)
    (h : ∀ r ∈ responses, r = []) :
    (d.Waiting config → (d.apply scan config responses).1.Waiting config ∧
      (d.apply scan config responses).1.status.version = d.status.version) ∧
    ((d.apply scan config responses).1.status.version ≠ d.status.version →
      (d.apply scan config responses).1.Waiting config) := by
  have hlines : d.received scan responses = d.status := by
    simp [received, linesOf, d.readBuffer.receive_silent h, Status.applyLines]
  have happly : ∀ st, d.received scan responses = st →
      (d.apply scan config responses).1.control = (d.control.applyConfig st config).1 ∧
      (d.apply scan config responses).1.status =
        (d.control.applyConfig st config).2.elim st fun s => st.commandSubmitted s.command := by
    rintro st rfl
    refine ⟨rfl, ?_⟩
    unfold apply
    dsimp only
    cases (d.control.applyConfig (d.received scan responses) config).2 <;> rfl
  obtain ⟨hcontrol, hstatus⟩ := happly _ hlines
  unfold Waiting
  rw [hcontrol, hstatus]
  have hkeep : ∀ k, d.control.Waiting d.status config k →
      d.control.applyConfig d.status config = (d.control.pass d.status config, none) := by
    intro k hk
    rcases Control.applyConfig_cases d.status config d.control with ⟨-, he⟩ | ⟨hnone, he⟩ | ⟨j, r, hidle, -⟩
    · exact he
    · exact he
    · exact absurd hk.pass.submitted (by simp [hidle k])
  refine ⟨?_, ?_⟩
  · rintro ⟨k, hk⟩
    rw [hkeep k hk]
    exact ⟨⟨k, hk.pass⟩, rfl⟩
  · intro hversion
    rcases Control.applyConfig_cases d.status config d.control with
      ⟨-, he⟩ | ⟨-, he⟩ | ⟨k, r, -, hop, -, he⟩
    · simp [he] at hversion
    · simp [he] at hversion
    · rw [he]
      exact ⟨k, Control.waiting_submitted hop⟩

end Driver

-- ---------------------------------------------------------------------------
-- The power state moves down
-- ---------------------------------------------------------------------------

/-- How far the power state is from where it rests, with power configured on or not. -/
def PowerState.stage : Bool → PowerState → Nat
  | true, .atShutdown => 6
  | true, .atGraceDelay => 5
  | true, .poweringOff => 4
  | true, .powerOff => 3
  | true, .unknown => 3
  | true, .poweringOn => 2
  | true, .atProtocol => 1
  | true, .atBusy => 1
  | true, .powerOn => 1
  | false, .poweringOn => 6
  | false, .atProtocol => 5
  | false, .atBusy => 5
  | false, .powerOn => 5
  | false, .atShutdown => 4
  | false, .atGraceDelay => 3
  | false, .poweringOff => 2
  | false, .powerOff => 1
  | false, .unknown => 1

theorem PowerState.stage_le (on : Bool) (s : PowerState) : s.stage on ≤ 6 := by
  cases on <;> cases s <;> decide

namespace Main

variable {scan : Scanner} {parse : BoolFormat} {config : MainConfig} {m m' : Main} {i : Surroundings}
  {b : Bool}

/-- `stage` of the power state under a configuration. -/
def stage (parse : BoolFormat) (config : MainConfig) (m : Main) : Nat :=
  m.powerState.stage (attributeBool parse config.power false)

theorem not_on_of_off (hoff : attributeBool parse config.power true = false) :
    attributeBool parse config.power false = false := by
  unfold attributeBool at hoff ⊢
  cases hp : config.power with
  | none => rfl
  | some t =>
    rw [hp] at hoff
    cases ht : parse t with
    | none => simp [ht]
    | some v => simpa [ht] using hoff

/-- A move that assigns the power state lowers the stage. -/
theorem PowerMove.stage {r : Main × List Entered} (h : PowerMove parse config m r) :
    Kept m r.1 ∨ r.1.stage parse config < m.stage parse config := by
  unfold Main.stage
  cases h with
  | stay h => exact .inl h
  | startup _ hs hon =>
    right
    rw [hon]
    rcases hs with hs | hs <;> simp [hs, enter, PowerState.stage]
  | started _ hs d =>
    right
    cases attributeBool parse config.power false <;> simp [hs, enter, PowerState.stage]
  | startedAlone _ hs =>
    right
    cases attributeBool parse config.power false <;> simp [hs, enter, PowerState.stage]
  | shutdown _ _ hs hoff =>
    right
    rw [not_on_of_off hoff]
    simp only [List.mem_cons, List.not_mem_nil, or_false] at hs
    rcases hs with hs | hs | hs | hs <;> simp [hs, enter, PowerState.stage]
  | stop _ hs hoff =>
    right
    rw [not_on_of_off hoff]
    simp only [List.mem_cons, List.not_mem_nil, or_false] at hs
    rcases hs with hs | ⟨-, hs | hs | hs⟩ <;> simp [hs, enter, PowerState.stage]
  | complete _ hs _ =>
    right
    cases attributeBool parse config.power false <;> simp [hs, enter, PowerState.stage]
  | graceOver _ hs _ =>
    right
    cases attributeBool parse config.power false <;> simp [hs, enter, PowerState.stage]
  | off _ hs =>
    right
    cases attributeBool parse config.power false <;> simp [hs, enter, PowerState.stage]

theorem stage_applyPowerState (scan : Scanner) (parse : BoolFormat) (m : Main) (config : MainConfig)
    (i : Surroundings) :
    Kept m (m.applyPowerState scan parse config i).1 ∨
      (m.applyPowerState scan parse config i).1.stage parse config < m.stage parse config := by
  have hpast : ∀ m' : Main, m.powerState = .atShutdown → m'.powerState = .poweringOff →
      m'.stage parse config < m.stage parse config := by
    intro m' hs hs'
    unfold Main.stage
    rw [hs, hs']
    cases attributeBool parse config.power false <;> decide
  rcases applyPowerState_cases scan parse m config i with ⟨-, hmoves⟩ | hgive | hhasten
  · generalize m.applyPowerState scan parse config i = r at hmoves
    obtain @⟨m₁, es₁, m₂, es₂, h₁, h₂⟩ := hmoves
    rcases h₁.stage with hk₁ | hlt₁
    · have hstage : m₁.stage parse config = m.stage parse config := by
        rw [Main.stage, hk₁.powerState, ← Main.stage]
      rcases h₂.stage with hk₂ | hlt₂
      · exact .inl ⟨hk₁.clock.trans hk₂.clock, hk₂.powerState.trans hk₁.powerState,
          hk₂.atPoweredDown.trans hk₁.atPoweredDown, hk₂.driver.trans hk₁.driver⟩
      · exact .inr (hstage ▸ hlt₂)
    · right
      rcases h₂.stage with hk₂ | hlt₂
      · have hstage : m₂.stage parse config = m₁.stage parse config := by
          rw [Main.stage, hk₂.powerState, ← Main.stage]
        exact hstage ▸ hlt₁
      · exact hlt₂.trans hlt₁
  · exact .inr (hpast _ hgive.timesOut.1 hgive.powerState)
  · exact .inr (hpast _ hhasten.timesOut.1 hhasten.powerState)

/-- The power driver was called in the state it is called in, under this reading of the pin. -/
def PowerDone (b : Bool) (m : Main) : Prop :=
  match m.powerState with
  | .poweringOn => Power.Driven .on b m.power
  | .poweringOff => Power.Driven .off b m.power
  | _ => True

/-- The driver waits for the modem. -/
def DriverWaits (config : MainConfig) (m : Main) : Prop := ∃ d ∈ m.driver, d.Waiting config.toConfig

open Classical in
/-- What an iteration with progress lowers: the stage of the power state, whether the power driver
has something to do, and whether the AT driver has. -/
noncomputable def unsettled (parse : BoolFormat) (config : MainConfig) (b : Bool) (m : Main) : Nat :=
  3 * m.stage parse config + (if m.PowerDone b then 0 else 1) + (if m.DriverWaits config then 0 else 1)

theorem unsettled_le : m.unsettled parse config b ≤ 20 := by
  have := m.powerState.stage_le (attributeBool parse config.power false)
  unfold unsettled Main.stage
  split_ifs <;> omega

/-- Where the power state stays, the power driver is left with nothing to do. -/
theorem powerDone_applyPowerState (hi : i.Silent b)
    (hs : (m.applyPowerState scan parse config i).1.powerState = m.powerState) :
    (m.applyPowerState scan parse config i).1.PowerDone b ∧
      (m.PowerDone b → (m.applyPowerState scan parse config i).1.power = m.power) := by
  have hpower := power_applyPowerState scan parse config m i
  rw [hi.status] at hpower
  unfold PowerDone
  rw [hs, hpower]
  cases m.powerState with
  | poweringOn => exact ⟨Power.driven_powerEnabled, Power.powerEnabled_of_driven⟩
  | poweringOff => exact ⟨Power.driven_powerEnabled, Power.powerEnabled_of_driven⟩
  | _ => exact ⟨trivial, fun _ => rfl⟩

theorem atVersion_congr (h : m'.driver = m.driver) : m'.atVersion = m.atVersion := by
  simp [atVersion, h]

theorem driverWaits_applyDriver (scan : Scanner) (config : MainConfig) (m : Main) (responses : List Text) (h : ∀ r ∈ responses, r = []) :
    (m.DriverWaits config → (m.applyDriver scan config responses).DriverWaits config ∧
      (m.applyDriver scan config responses).atVersion = m.atVersion) ∧
    ((m.applyDriver scan config responses).atVersion ≠ m.atVersion →
      (m.applyDriver scan config responses).DriverWaits config) := by
  unfold applyDriver
  split
  · unfold DriverWaits atVersion
    cases hd : m.driver with
    | none => simp
    | some d => simpa using d.apply_silent scan config.toConfig h
  · exact ⟨fun hw => ⟨hw, rfl⟩, fun hne => absurd rfl hne⟩

/-- An iteration without data from the modem that makes progress. -/
theorem unsettled_iterate (hi : i.Silent b) (hp : m.progress (m.iterate scan parse config i).1 = true) :
    (m.iterate scan parse config i).1.unsettled parse config b < m.unsettled parse config b := by
  rw [iterate_fst] at hp ⊢
  set m₁ := (m.applyPowerState scan parse config i).1 with hm₁
  obtain ⟨-, hpower, -, hstate⟩ := applyDriver_fields scan config m₁ i.responses
  set m₂ := m₁.applyDriver scan config i.responses with hm₂
  have hstage : m₂.stage parse config = m₁.stage parse config := by
    rw [Main.stage, hstate, ← Main.stage]
  unfold unsettled
  rw [hstage]
  rcases stage_applyPowerState scan parse m config i with hk | hlt
  · have hsame : m₁.stage parse config = m.stage parse config := by
      rw [Main.stage, hk.powerState, ← Main.stage]
    obtain ⟨hdone, hquiet⟩ := powerDone_applyPowerState hi hk.powerState
    have hdone₂ : m₂.PowerDone b := by
      unfold PowerDone
      rw [hstate, hpower]
      exact hdone
    obtain ⟨hwaits, hsubmit⟩ := driverWaits_applyDriver scan config m₁
      i.responses hi.responses
    have hwaits₁ : m₁.DriverWaits config ↔ m.DriverWaits config := by
      unfold DriverWaits
      rw [hk.driver]
    rw [atVersion_congr hk.driver, hwaits₁] at hwaits
    rw [atVersion_congr hk.driver] at hsubmit
    rw [hsame, if_pos hdone₂]
    -- either the power driver or the AT driver had something to do before, and has not now
    simp only [progress, Bool.or_eq_true, decide_eq_true_eq] at hp
    by_cases hw : m.DriverWaits config
    · obtain ⟨hw₂, hversion⟩ := hwaits hw
      have hnot : ¬ m.PowerDone b := by
        intro h
        rcases hp with hp | hp
        · exact hp (hpower.trans (hquiet h)).symm
        · exact hp hversion.symm
      rw [if_pos hw, if_pos hw₂, if_neg hnot]
      omega
    · rw [if_neg hw]
      rcases hp with hp | hp
      · have hnot : ¬ m.PowerDone b := fun h => hp (hpower.trans (hquiet h)).symm
        rw [if_neg hnot]
        split_ifs <;> omega
      · rw [if_pos (hsubmit (Ne.symm hp))]
        split_ifs <;> omega
  · have hlower : m₁.stage parse config < m.stage parse config := hlt
    split_ifs <;> omega

end Main

-- ---------------------------------------------------------------------------
-- The handler ends
-- ---------------------------------------------------------------------------

namespace Component

variable {scan : Scanner} {parse : BoolFormat} {b : Bool}

/-- An iteration after which the loop goes on made progress. -/
theorem progress_of_continues {m : Main} {l : MainLoop} {i : Surroundings}
    (h : ((system scan parse).next ⟨m, some l⟩ (.iteration i)).loop ≠ none) :
    (system scan parse).next ⟨m, some l⟩ (.iteration i) =
      ⟨(m.iterate scan parse l.config i).1, some l⟩ ∧
    m.progress (m.iterate scan parse l.config i).1 = true := by
  unfold System.next system step iterate at h ⊢
  dsimp only at h ⊢
  split at h
  · rename_i hgo
    rw [if_pos hgo]
    exact ⟨rfl, hgo.1⟩
  · exact absurd rfl h

/-- `unsettled` under the configuration the handler goes through. -/
noncomputable def unsettled (parse : BoolFormat) (b : Bool) (c : Component) : Nat :=
  match c.loop with
  | some l => c.main.unsettled parse l.config b
  | none => 0

/-- With the pin steady and no data from the modem both loops end: the inner one within three
iterations whatever it reads, and the one of the handler since each iteration it goes on after lowers
a measure. -/
theorem settle_ends (scan : Scanner) (parse : BoolFormat) (b : Bool) :
    (∀ requested status s i, (Power.loop requested status 3 i s).isSome) ∧
    (∀ c i, i.Silent b → ((system scan parse).next c (.iteration i)).loop ≠ none →
      ((system scan parse).next c (.iteration i)).unsettled parse b < c.unsettled parse b) ∧
    (∀ c is, (∀ i ∈ is, Surroundings.Silent b i) → 20 < is.length →
      ∃ pre, pre <+: is ∧ ((system scan parse).run c (pre.map .iteration)).loop = none) := by
  have hlower : ∀ c i, i.Silent b → ((system scan parse).next c (.iteration i)).loop ≠ none →
      ((system scan parse).next c (.iteration i)).unsettled parse b < c.unsettled parse b := by
    rintro ⟨m, _ | l⟩ i hi hgo
    · exact absurd rfl hgo
    · obtain ⟨hnext, hp⟩ := progress_of_continues hgo
      rw [hnext]
      exact Main.unsettled_iterate hi hp
  refine ⟨fun requested status s i => Power.loop_isSome ?_, hlower, ?_⟩
  · cases requested <;> cases s <;> decide
  · intro c is his hlen
    have hle : c.unsettled parse b ≤ 20 := by
      unfold Component.unsettled
      split
      · exact Main.unsettled_le
      · exact Nat.zero_le _
    have hreach : ∃ pre, pre <+: is.map .iteration ∧ ((system scan parse).run c pre).loop = none := by
      refine System.exists_prefix_of_rank (P := fun c => c.loop = none)
        (D := fun e => ∃ i, Surroundings.Silent b i ∧ e = MainEvent.iteration i)
        (Component.unsettled parse b) ?_ ?_ ?_
      · rintro c e ⟨i, hi, rfl⟩ -
        by_cases hgo : ((system scan parse).next c (.iteration i)).loop = none
        · exact .inl hgo
        · exact .inr (hlower c i hi hgo)
      · intro e he
        obtain ⟨i, hmem, rfl⟩ := List.mem_map.mp he
        exact ⟨i, his i hmem, rfl⟩
      · rw [List.length_map]
        omega
    obtain ⟨pre, ⟨post, hpost⟩, hend⟩ := hreach
    obtain ⟨pre', post', rfl, rfl, rfl⟩ := List.map_eq_append_iff.mp hpost.symm
    exact ⟨pre', ⟨post', rfl⟩, hend⟩

end Component

end Allwinner.Modem
