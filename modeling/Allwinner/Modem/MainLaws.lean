import Allwinner.Modem.Main

/-!
# What the manager's parts do

Each part of the power machine leaves the power state alone or assigns it once.
An iteration of the loop is two such moves and a call of the AT driver, with one
exception: a shutdown that completes and times out at the same moment.
-/

namespace Allwinner.Modem.Main

variable {scan : Scanner} {parse : BoolFormat} {config : MainConfig} {m : Main} {i : Surroundings}

/-- The power state, the driver and the start of the grace delay are the same, and time
may have passed. -/
structure Kept (m m' : Main) : Prop where
  clock : m.clock ≤ m'.clock
  powerState : m'.powerState = m.powerState
  atPoweredDown : m'.atPoweredDown = m.atPoweredDown
  driver : m'.driver = m.driver

theorem Kept.refl (m : Main) : Kept m m := ⟨le_rfl, rfl, rfl, rfl⟩

theorem kept_elapse (m : Main) (delay : Nat) : Kept m (m.elapse delay) :=
  ⟨Nat.le_add_right _ _, rfl, rfl, rfl⟩

def Down (m : Main) : Bool := m.driver.any (·.poweredDown)

/-- The second reading of the timer in `AT_SHUTDOWN`. -/
def givesUpAt (m : Main) (i : Surroundings) : Nat := m.clock + (if m.Down then i.delay else 0) + i.later

/-- In `AT_SHUTDOWN`, more than 25 seconds have passed since the shutdown was triggered. -/
def TimesOut (m : Main) (i : Surroundings) : Prop :=
  m.powerState = .atShutdown ∧ (m.givesUpAt i - m.shutdownTriggered) / 1000 > 25

instance : Decidable (m.TimesOut i) := by unfold TimesOut; infer_instance

/-- A part of the power machine leaves the power state alone or assigns it once. -/
inductive PowerMove (parse : BoolFormat) (config : MainConfig) (m : Main) :
    Main × List Entered → Prop where
  | stay (h : Kept m m') : PowerMove parse config m (m', [])
  | startup (h : Kept m m') (hs : m.powerState = .powerOff ∨ m.powerState = .unknown)
      (hon : attributeBool parse config.power false = true) :
      PowerMove parse config m (m'.enter .poweringOn)
  | started (h : Kept m m') (hs : m.powerState = .poweringOn) (d : Driver 256) :
      PowerMove parse config m ({ m' with driver := some d }.enter .atProtocol)
  | startedAlone (h : Kept m m') (hs : m.powerState = .poweringOn) :
      PowerMove parse config m (m'.enter .powerOn)
  | shutdown (h : Kept m m') (hd : m.driver.isSome)
      (hs : m.powerState ∈ [.poweringOn, .powerOn, .atProtocol, .atBusy])
      (hoff : attributeBool parse config.power true = false) :
      PowerMove parse config m (m'.enter .atShutdown)
  | stop (h : Kept m m') (hs : m.powerState = .powerOn ∨
        m.driver = none ∧ m.powerState ∈ [.poweringOn, .atProtocol, .atBusy])
      (hoff : attributeBool parse config.power true = false) :
      PowerMove parse config m (m'.enter .poweringOff)
  | complete (h : Kept m m') (hs : m.powerState = .atShutdown) (hd : m.Down = true) :
      PowerMove parse config m
        ({ m' with driver := none, atPoweredDown := m'.clock }.enter .atGraceDelay)
  | graceOver (h : Kept m m') (hs : m.powerState = .atGraceDelay)
      (ht : m.atPoweredDown + 1000 ≤ m'.clock) :
      PowerMove parse config m (m'.enter .poweringOff)
  | off (h : Kept m m') (hs : m.powerState = .poweringOff) :
      PowerMove parse config m (m'.enter .powerOff)

-- ---------------------------------------------------------------------------
-- The parts
-- ---------------------------------------------------------------------------

theorem triggerStartup_move (hs : m.powerState = .powerOff ∨ m.powerState = .unknown) :
    PowerMove parse config m (m.triggerStartup parse config i) := by
  unfold triggerStartup
  split
  · rename_i hon
    exact .startup (kept_elapse m _) hs hon
  · exact .stay (.refl m)

theorem leavePowerOn_move (hs : m.powerState = .powerOn) :
    PowerMove parse config m (m.leavePowerOn parse config i) := by
  unfold leavePowerOn
  split
  · rename_i hoff
    exact .stop ⟨Nat.le_add_right _ _, rfl, rfl, rfl⟩ (.inl hs) hoff
  · exact .stay (.refl m)

theorem triggerShutdown_move (hs : m.powerState ∈ [.poweringOn, .powerOn, .atProtocol, .atBusy]) :
    PowerMove parse config m (m.triggerShutdown parse config i) := by
  unfold triggerShutdown
  split
  · rename_i hoff
    dsimp only [elapse]
    split
    · rename_i hd
      split
      · exact .shutdown ⟨Nat.le_add_right _ _, rfl, rfl, rfl⟩ (by simp [hd]) hs hoff
      · exact .stay ⟨Nat.le_add_right _ _, rfl, rfl, rfl⟩
    · rename_i hd
      refine .stop ⟨Nat.le_add_right _ _, rfl, rfl, rfl⟩ ?_ hoff
      by_cases hon : m.powerState = .powerOn
      · exact .inl hon
      · exact .inr ⟨hd, by simpa [hon] using hs⟩
  · exact .stay (.refl m)

theorem startDriver_move (hs : m.powerState = .poweringOn) :
    PowerMove parse config m (m.startDriver scan parse config i) := by
  unfold startDriver
  split_ifs
  · exact .started (.refl m) hs _
  · exact .startedAlone (.refl m) hs
  · exact .stay (.refl m)

theorem powerState_startDriver (hs : m.powerState = .poweringOn) :
    (m.startDriver scan parse config i).1.powerState ∈ [.poweringOn, .powerOn, .atProtocol, .atBusy] := by
  unfold startDriver
  split_ifs <;> simp [enter, hs]

theorem awaitGraceDelay_move (hs : m.powerState = .atGraceDelay) :
    PowerMove parse config m (m.awaitGraceDelay i) := by
  unfold awaitGraceDelay
  dsimp only
  split
  · rename_i ht
    refine .graceOver (kept_elapse m _) hs ?_
    have : 1000 ≤ (m.elapse i.delay).clock - m.atPoweredDown := ht
    omega
  · exact .stay (kept_elapse m _)

theorem PowerMove.of_power {p : Power.State} {r : Main × List Entered}
    (h : PowerMove parse config { m with power := p } r) : PowerMove parse config m r := by
  have hk : ∀ {m'}, Kept { m with power := p } m' → Kept m m' := fun h => ⟨h.1, h.2, h.3, h.4⟩
  cases h with
  | stay h => exact .stay (hk h)
  | startup h hs hon => exact .startup (hk h) hs hon
  | started h hs d => exact .started (hk h) hs d
  | startedAlone h hs => exact .startedAlone (hk h) hs
  | shutdown h hd hs hoff => exact .shutdown (hk h) hd hs hoff
  | stop h hs hoff => exact .stop (hk h) hs hoff
  | complete h hs hd => exact .complete (hk h) hs hd
  | graceOver h hs ht => exact .graceOver (hk h) hs ht
  | off h hs => exact .off (hk h) hs

theorem drivePowerOff_move (hs : m.powerState = .poweringOff) :
    PowerMove parse config m (m.drivePowerOff i) := by
  unfold drivePowerOff
  dsimp only
  split
  · exact .off ⟨le_rfl, rfl, rfl, rfl⟩ hs
  · exact .stay ⟨le_rfl, rfl, rfl, rfl⟩

/-- Two moves after each other. -/
inductive PowerMoves (parse : BoolFormat) (config : MainConfig) (m : Main) :
    Main × List Entered → Prop where
  | intro (h₁ : PowerMove parse config m (m₁, es₁)) (h₂ : PowerMove parse config m₁ (m₂, es₂)) :
      PowerMoves parse config m (m₂, es₁ ++ es₂)

theorem PowerMove.once {r : Main × List Entered} (h : PowerMove parse config m r) :
    PowerMoves parse config m r := by
  have := PowerMoves.intro h (.stay (.refl r.1))
  rwa [List.append_nil] at this

/-- The shutdown times out without an answer of the modem. -/
structure GivesUp (i : Surroundings) (m m' : Main) (es : List Entered) : Prop where
  down : m.Down = false
  timesOut : m.TimesOut i
  kept : Kept m { m' with powerState := .atShutdown }
  powerState : m'.powerState = .poweringOff
  power : m'.power = m.power
  entered : es = [⟨.poweringOff, m'.clock⟩]

/-- The shutdown completes and times out at the same moment. -/
structure Hastens (i : Surroundings) (m m' : Main) (es : List Entered) : Prop where
  down : m.Down = true
  timesOut : m.TimesOut i
  driver : m'.driver = none
  powerState : m'.powerState = .poweringOff
  power : m'.power = m.power
  clock : m'.clock = m.clock + i.delay + i.later
  entered : es = [⟨.atGraceDelay, m.clock + i.delay⟩, ⟨.poweringOff, m'.clock⟩]

/-- The ways `AT_SHUTDOWN` goes on. -/
theorem driveAtShutdown_cases (hs : m.powerState = .atShutdown) :
    (¬ m.TimesOut i ∧ PowerMoves parse config m (m.driveAtShutdown i)) ∨
    GivesUp i m (m.driveAtShutdown i).1 (m.driveAtShutdown i).2 ∨
    Hastens i m (m.driveAtShutdown i).1 (m.driveAtShutdown i).2 := by
  have hdown : m.driver.any (·.poweredDown) = m.Down := rfl
  cases hd : m.Down with
  | false =>
    have htime : m.TimesOut i ↔ (m.clock + i.later - m.shutdownTriggered) / 1000 > 25 := by
      simp [TimesOut, hs, givesUpAt, hd]
    simp only [driveAtShutdown, completeAtShutdown, hdown, hd, Bool.false_eq_true, if_false,
      List.nil_append, giveUpAtShutdown, elapse, enter]
    by_cases ht : m.TimesOut i
    · right; left
      simp only [if_pos (htime.mp ht)]
      exact ⟨hd, ht, ⟨Nat.le_add_right _ _, hs.symm, rfl, rfl⟩, rfl, rfl, rfl⟩
    · left
      simp only [if_neg fun h => ht (htime.mpr h)]
      exact ⟨ht, (PowerMove.stay (kept_elapse m i.later)).once⟩
  | true =>
    have htime : m.TimesOut i ↔ (m.clock + i.delay + i.later - m.shutdownTriggered) / 1000 > 25 := by
      simp [TimesOut, hs, givesUpAt, hd]
    simp only [driveAtShutdown, completeAtShutdown, hdown, hd, if_true, giveUpAtShutdown, elapse, enter]
    by_cases ht : m.TimesOut i
    · right; right
      simp only [if_pos (htime.mp ht)]
      exact ⟨hd, ht, rfl, rfl, rfl, rfl, rfl⟩
    · left
      simp only [if_neg fun h => ht (htime.mpr h)]
      exact ⟨ht, .intro (.complete (kept_elapse m i.delay) hs hd) (.stay (kept_elapse _ i.later))⟩

/-- The power machine makes two moves, unless a shutdown times out. -/
theorem applyPowerState_cases (scan : Scanner) (parse : BoolFormat) (m : Main) (config : MainConfig)
    (i : Surroundings) :
    (¬ m.TimesOut i ∧ PowerMoves parse config m (m.applyPowerState scan parse config i)) ∨
    GivesUp i m (m.applyPowerState scan parse config i).1 (m.applyPowerState scan parse config i).2 ∨
    Hastens i m (m.applyPowerState scan parse config i).1 (m.applyPowerState scan parse config i).2 := by
  have hno (h : m.powerState ≠ .atShutdown) : ¬ m.TimesOut i := fun ht => h ht.1
  unfold applyPowerState
  cases hs : m.powerState with
  | unknown => exact .inl ⟨hno (by simp [hs]), (triggerStartup_move (.inr hs)).once⟩
  | powerOff => exact .inl ⟨hno (by simp [hs]), (triggerStartup_move (.inl hs)).once⟩
  | powerOn => exact .inl ⟨hno (by simp [hs]), (leavePowerOn_move hs).once⟩
  | poweringOn =>
    left
    refine ⟨hno (by simp [hs]), ?_⟩
    set m₀ : Main := { m with power := Power.powerEnabled .on i.status m.power } with hm₀
    have hs₀ : m₀.powerState = .poweringOn := hs
    have hstart : PowerMove parse config m (m₀.startDriver scan parse config i) :=
      (startDriver_move hs₀).of_power
    exact .intro hstart (triggerShutdown_move (powerState_startDriver hs₀))
  | atProtocol => exact .inl ⟨hno (by simp [hs]), (triggerShutdown_move (by simp [hs])).once⟩
  | atBusy => exact .inl ⟨hno (by simp [hs]), (triggerShutdown_move (by simp [hs])).once⟩
  | atShutdown => exact driveAtShutdown_cases hs
  | atGraceDelay => exact .inl ⟨hno (by simp [hs]), (awaitGraceDelay_move hs).once⟩
  | poweringOff => exact .inl ⟨hno (by simp [hs]), (drivePowerOff_move hs).once⟩

/-- The power driver is called in two states. -/
theorem power_applyPowerState (scan : Scanner) (parse : BoolFormat) (config : MainConfig) (m : Main)
    (i : Surroundings) : (m.applyPowerState scan parse config i).1.power =
    match m.powerState with
    | .poweringOn => Power.powerEnabled .on i.status m.power
    | .poweringOff => Power.powerEnabled .off i.status m.power
    | _ => m.power := by
  have hstop : ∀ m₀ : Main, (m₀.triggerShutdown parse config i).1.power = m₀.power := by
    intro m₀
    unfold triggerShutdown
    split
    · dsimp only
      split
      · split <;> rfl
      · rfl
    · rfl
  have hstart : ∀ m₀ : Main, (m₀.startDriver scan parse config i).1.power = m₀.power := by
    intro m₀
    unfold startDriver
    split_ifs <;> rfl
  unfold applyPowerState
  cases hs : m.powerState with
  | unknown => simp only [triggerStartup]; split <;> rfl
  | powerOff => simp only [triggerStartup]; split <;> rfl
  | powerOn => simp only [leavePowerOn]; split <;> rfl
  | poweringOn => exact (hstop _).trans (hstart _)
  | atProtocol => exact hstop m
  | atBusy => exact hstop m
  | atShutdown =>
    simp only [driveAtShutdown, completeAtShutdown, giveUpAtShutdown]
    split <;> split <;> rfl
  | atGraceDelay => simp only [awaitGraceDelay]; split <;> rfl
  | poweringOff => simp only [drivePowerOff]; split <;> rfl

end Allwinner.Modem.Main
