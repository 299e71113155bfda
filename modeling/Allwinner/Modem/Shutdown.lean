import Allwinner.Modem.Coherence
import Allwinner.Modem.MainLaws

/-!
# Shutdown

How the manager leads the modem from a running AT protocol to power off: when
the driver exists, how long the modem may store its state once it says that it
is down, and that there is no way back while the power is configured off.
-/

namespace Allwinner.Modem

open Library (System EachGiven)

namespace Main

variable {scan : Scanner} {parse : BoolFormat} {config : MainConfig} {m m' : Main} {i : Surroundings}
  {l : MainLoop} {es : List Entered}

-- ---------------------------------------------------------------------------
-- The parts besides the power machine
-- ---------------------------------------------------------------------------

theorem isSome_applyDriver (responses : List Text) :
    (m.applyDriver scan config responses).driver.isSome = m.driver.isSome := by
  unfold applyDriver
  split
  · simp
  · rfl

theorem applyDriver_of_not (h : m.drivesAtProtocol = false) (responses : List Text) :
    m.applyDriver scan config responses = m := by
  simp [applyDriver, h]

theorem applyDriver_fields (scan : Scanner) (config : MainConfig) (m : Main) (responses : List Text) :
    (m.applyDriver scan config responses).clock = m.clock ∧
      (m.applyDriver scan config responses).power = m.power ∧
      (m.applyDriver scan config responses).atPoweredDown = m.atPoweredDown ∧
      (m.applyDriver scan config responses).powerState = m.powerState := by
  unfold applyDriver
  split <;> exact ⟨rfl, rfl, rfl, rfl⟩

/-- Without a driver, or with one that nothing new was read by, the modem is not busy. -/
theorem busy_congr (h : m'.driver = m.driver) (orig : UInt32) : m'.busy orig = m.busy orig := by
  simp [busy, h]

theorem busy_of_none (h : m.driver = none) (orig : UInt32) : m.busy orig = false := by
  simp [busy, h]

theorem busy_startLoop : m.busy (m.startLoop config).origBusyCount = false := by
  unfold busy startLoop busyCount
  cases m.driver <;> simp

theorem kept_noteProgress (m : Main) (l : MainLoop) (i : Surroundings) : Kept m (m.noteProgress l i) := by
  unfold noteProgress
  dsimp only
  split <;> split <;> refine ⟨?_, rfl, rfl, rfl⟩ <;> simp [elapse]

/-- Behind the loop the power state is overridden, if the modem is busy. -/
theorem finish_cases (m : Main) (l : MainLoop) (i : Surroundings) :
    (m.busy l.origBusyCount = false ∧ (m.finish l i).2 = [] ∧ Kept m (m.finish l i).1) ∨
    (m.busy l.origBusyCount = true ∧ (m.finish l i).2 = [⟨.atBusy, m.clock⟩] ∧
      Kept { m with powerState := .atBusy } (m.finish l i).1) := by
  cases hb : m.busy l.origBusyCount with
  | false =>
    left
    simp only [finish, deferIfBusy, hb, Bool.false_eq_true, if_false]
    exact ⟨trivial, trivial, kept_noteProgress m l i⟩
  | true =>
    right
    simp only [finish, deferIfBusy, hb, if_true, enter]
    exact ⟨trivial, trivial, kept_noteProgress _ l i⟩

/-- The timer resumes a deferred protocol, and otherwise at most touches the driver. -/
theorem handleTimer_cases (m : Main) (delay : Nat) :
    (m.handleTimer delay).1.driver.isSome = m.driver.isSome ∧
    (m.handleTimer delay).1.clock = m.clock + delay ∧
    (m.handleTimer delay).1.atPoweredDown = m.atPoweredDown ∧
    ((m.powerState = .atBusy ∧ (m.handleTimer delay).1.powerState = .atProtocol ∧
        (m.handleTimer delay).2 = [⟨.atProtocol, m.clock + delay⟩]) ∨
      (m.powerState ≠ .atBusy ∧ (m.handleTimer delay).1.powerState = m.powerState ∧
        (m.handleTimer delay).2 = [])) := by
  by_cases hs : m.powerState = .atBusy
  · simp only [handleTimer, elapse, hs, if_true, enter]
    split <;> simp
  · simp only [handleTimer, elapse, hs, if_false]
    split <;> simp [hs]

-- ---------------------------------------------------------------------------
-- The driver and the power state
-- ---------------------------------------------------------------------------

/-- The driver exists exactly in the states that use it. -/
def Matches (m : Main) : Prop :=
  m.driver.isSome ↔ m.powerState = .atProtocol ∨ m.powerState = .atBusy ∨ m.powerState = .atShutdown

theorem Matches.kept (h : Matches m) (hk : Kept m m') : Matches m' := by
  rw [Matches, hk.driver, hk.powerState]
  exact h

theorem Matches.of_none (hd : m.driver = none)
    (hs : m.powerState ∉ [.atProtocol, .atBusy, .atShutdown]) : Matches m := by
  simp only [List.mem_cons, List.not_mem_nil, or_false] at hs
  exact iff_of_false (by simp [hd]) hs

theorem Matches.of_some (hd : m.driver.isSome) (hs : m.powerState ∈ [.atProtocol, .atBusy, .atShutdown]) :
    Matches m := by
  simp only [List.mem_cons, List.not_mem_nil, or_false] at hs
  exact iff_of_true hd hs

theorem Matches.driver_none (h : Matches m) (hs : m.powerState ∉ [.atProtocol, .atBusy, .atShutdown]) :
    m.driver = none := by
  simp only [List.mem_cons, List.not_mem_nil, or_false] at hs
  exact Option.not_isSome_iff_eq_none.mp fun hd => hs (h.mp hd)

theorem Matches.move {r : Main × List Entered} (h : Matches m) (hm : PowerMove parse config m r) :
    Matches r.1 := by
  cases hm with
  | stay hk => exact h.kept hk
  | startup hk hs =>
    have hd : m.driver = none := h.driver_none (by rcases hs with hs | hs <;> simp [hs])
    exact .of_none (hk.driver.trans hd) (by simp [enter])
  | started hk hs d => exact .of_some rfl (by simp [enter])
  | startedAlone hk hs =>
    have hd : m.driver = none := h.driver_none (by simp [hs])
    exact .of_none (hk.driver.trans hd) (by simp [enter])
  | shutdown hk hd hs => exact .of_some (by simpa [enter, hk.driver] using hd) (by simp [enter])
  | stop hk hs =>
    have hd : m.driver = none := hs.elim (fun hs => h.driver_none (by simp [hs])) fun hs => hs.1
    exact .of_none (hk.driver.trans hd) (by simp [enter])
  | complete hk hs hd => exact .of_none rfl (by simp [enter])
  | graceOver hk hs ht =>
    have hd : m.driver = none := h.driver_none (by simp [hs])
    exact .of_none (hk.driver.trans hd) (by simp [enter])
  | off hk hs =>
    have hd : m.driver = none := h.driver_none (by simp [hs])
    exact .of_none (hk.driver.trans hd) (by simp [enter])

theorem Matches.applyDriver (h : Matches m) (responses : List Text) :
    Matches (m.applyDriver scan config responses) := by
  rw [Matches, isSome_applyDriver, (applyDriver_fields scan config m responses).2.2.2]
  exact h

theorem Matches.finish (h : Matches m) : Matches (m.finish l i).1 := by
  rcases finish_cases m l i with ⟨-, -, hk⟩ | ⟨hb, -, hk⟩
  · exact h.kept hk
  · have hd : m.driver.isSome := by
      by_contra hd
      rw [busy_of_none (by simpa using hd)] at hb
      cases hb
    exact .of_some (by simpa [hk.driver] using hd) (by simp [hk.powerState])

theorem Matches.handleTimer (h : Matches m) (delay : Nat) : Matches (m.handleTimer delay).1 := by
  obtain ⟨hd, -, -, hs⟩ := handleTimer_cases m delay
  rw [Matches, hd]
  rcases hs with ⟨hs, hs', -⟩ | ⟨-, hs', -⟩
  · rw [hs']
    exact iff_of_true (h.mpr (by simp [hs])) (by simp)
  · rw [hs']
    exact h

theorem Matches.moves {r : Main × List Entered} (h : Matches m) (hm : PowerMoves parse config m r) :
    Matches r.1 := by
  obtain ⟨h₁, h₂⟩ := hm
  have hnext := (h.move h₁).move h₂
  exact hnext

theorem iterate_fst : (m.iterate scan parse config i).1 =
    (m.applyPowerState scan parse config i).1.applyDriver scan config i.responses := rfl

theorem iterate_snd : (m.iterate scan parse config i).2 = (m.applyPowerState scan parse config i).2 := rfl

/-- Unless it gives up, an iteration keeps the driver where it belongs. -/
theorem Matches.iterate (h : Matches m) (hno : ¬ (m.TimesOut i ∧ m.Down = false)) :
    Matches (m.iterate scan parse config i).1 := by
  have hcases := applyPowerState_cases scan parse m config i
  rw [iterate_fst]
  generalize m.applyPowerState scan parse config i = r at hcases ⊢
  refine Matches.applyDriver ?_ _
  rcases hcases with ⟨-, hm⟩ | hg | hh
  · exact h.moves hm
  · exact absurd ⟨hg.timesOut, hg.down⟩ hno
  · exact .of_none hh.driver (by simp [hh.powerState])

/-- When it gives up, an iteration changes nothing that counts as progress. -/
theorem iterate_of_givesUp (scan : Scanner) (parse : BoolFormat) (config : MainConfig) (ht : m.TimesOut i) (hd : m.Down = false) :
    (m.iterate scan parse config i).1.driver = m.driver ∧
      (m.iterate scan parse config i).1.powerState = .poweringOff ∧
      m.progress (m.iterate scan parse config i).1 = false := by
  have hcases := applyPowerState_cases scan parse m config i
  rw [iterate_fst]
  generalize m.applyPowerState scan parse config i = r at hcases ⊢
  rcases hcases with ⟨hno, -⟩ | hg | hh
  · exact absurd ht hno
  · have hsame : r.1.applyDriver scan config i.responses = r.1 :=
      applyDriver_of_not (by simp [drivesAtProtocol, hg.powerState]) _
    have hdriver : r.1.driver = m.driver := hg.kept.driver
    rw [hsame]
    exact ⟨hdriver, hg.powerState, by simp [progress, hg.power, atVersion, hdriver]⟩
  · exact absurd hh.down (by simp [hd])

end Main

namespace Component

variable {scan : Scanner} {parse : BoolFormat} {c : Component} {m : Main} {i : Surroundings}
  {l : MainLoop}

-- ---------------------------------------------------------------------------
-- Iterations and handlers
-- ---------------------------------------------------------------------------

/-- The handler goes on after an iteration with progress that does not leave the modem
busy, and ends after any other. -/
theorem iterate_cases (scan : Scanner) (parse : BoolFormat) (m : Main) (l : MainLoop) (i : Surroundings) :
    ((m.iterate scan parse l.config i).1.busy l.origBusyCount = false ∧
      m.progress (m.iterate scan parse l.config i).1 = true ∧ iterate scan parse m l i =
        ({ main := (m.iterate scan parse l.config i).1, loop := some l }, (m.iterate scan parse l.config i).2)) ∨
    (((m.iterate scan parse l.config i).1.busy l.origBusyCount = true ∨
        m.progress (m.iterate scan parse l.config i).1 = false) ∧ iterate scan parse m l i =
      ({ main := ((m.iterate scan parse l.config i).1.finish l i).1 },
        (m.iterate scan parse l.config i).2 ++ ((m.iterate scan parse l.config i).1.finish l i).2)) := by
  unfold iterate
  dsimp only
  split
  · rename_i h
    exact .inl ⟨by simpa using h.2, h.1, rfl⟩
  · rename_i h
    refine .inr ⟨?_, rfl⟩
    rw [not_and_or, not_not] at h
    exact h.symm.imp_right fun h => by simpa using h

-- ---------------------------------------------------------------------------
-- The driver and the power state
-- ---------------------------------------------------------------------------

/-- No shutdown times out while the driver still waits for the modem to be down. -/
def Answered (c : Component) : MainEvent → Prop
  | .iteration i => c.loop.isSome → ¬ (c.main.TimesOut i ∧ c.main.Down = false)
  | .config _ => True
  | .timer _ _ => True

/-- Between the handlers the driver exists exactly in the states that use it. -/
def Settled (c : Component) : Prop := c.loop = none → c.main.Matches

/-- The same in front of an iteration, which the modem is not busy at. -/
def Looping (c : Component) : Prop :=
  ∀ l ∈ c.loop, c.main.Matches ∧ c.main.busy l.origBusyCount = false

theorem looping_next {e : MainEvent} (hl : Looping c) (hs : Settled c) (ha : Answered c e) :
    Looping ((system scan parse).next c e) := by
  obtain ⟨m, loop⟩ := c
  cases loop with
  | none =>
    have hm : m.Matches := hs rfl
    cases e with
    | config config =>
      rintro l ⟨⟩
      exact ⟨hm, Main.busy_startLoop⟩
    | timer config delay =>
      rintro l ⟨⟩
      exact ⟨hm.handleTimer delay, Main.busy_startLoop⟩
    | iteration i => exact hl
  | some l =>
    cases e with
    | config config => exact hl
    | timer config delay => exact hl
    | iteration i =>
      have hm : m.Matches := (hl l rfl).1
      rcases iterate_cases scan parse m l i with ⟨hbusy, -, he⟩ | ⟨-, he⟩
      · intro l' hl'
        have hnext : (system scan parse).next ⟨m, some l⟩ (.iteration i) =
            { main := (m.iterate scan parse l.config i).1, loop := some l } := congrArg Prod.fst he
        rw [hnext] at hl' ⊢
        obtain rfl := Option.some.inj hl'
        exact ⟨hm.iterate (ha rfl), hbusy⟩
      · intro l' hl'
        have hnext : (system scan parse).next ⟨m, some l⟩ (.iteration i) =
            { main := ((m.iterate scan parse l.config i).1.finish l i).1 } := congrArg Prod.fst he
        rw [hnext] at hl'
        cases hl'

/-- A step leaves the driver where it belongs exactly if it is no iteration that gives up. -/
theorem settled_next {e : MainEvent} (hl : Looping c) (hs : Settled c) :
    Settled ((system scan parse).next c e) ↔ Answered c e := by
  obtain ⟨m, loop⟩ := c
  cases loop with
  | none =>
    cases e with
    | config config => exact iff_of_true (fun h => nomatch h) trivial
    | timer config delay => exact iff_of_true (fun h => nomatch h) trivial
    | iteration i => exact iff_of_true hs (fun h => nomatch h)
  | some l =>
    cases e with
    | config config => exact iff_of_true (fun h => nomatch h) trivial
    | timer config delay => exact iff_of_true (fun h => nomatch h) trivial
    | iteration i =>
      obtain ⟨hm, hbusy⟩ := hl l rfl
      have hnext : (system scan parse).next ⟨m, some l⟩ (.iteration i) = (iterate scan parse m l i).1 := rfl
      rw [hnext]
      by_cases ha : m.TimesOut i ∧ m.Down = false
      · refine iff_of_false ?_ fun h => h rfl ha
        obtain ⟨hdriver, hstate, hstop⟩ := Main.iterate_of_givesUp scan parse l.config ha.1 ha.2
        have hidle : (m.iterate scan parse l.config i).1.busy l.origBusyCount = false :=
          (Main.busy_congr hdriver _).trans hbusy
        rcases iterate_cases scan parse m l i with ⟨-, hgo, -⟩ | ⟨-, he⟩
        · exact absurd hgo (by simp [hstop])
        · rw [he]
          intro hset
          have hfin : ((m.iterate scan parse l.config i).1.finish l i).1.Matches := hset rfl
          rcases Main.finish_cases (m.iterate scan parse l.config i).1 l i with ⟨-, -, hk⟩ | ⟨hb, -, -⟩
          · have hd : m.driver.isSome := hm.mpr (.inr (.inr ha.1.1))
            rw [Main.Matches, hk.driver, hk.powerState, hdriver, hstate] at hfin
            exact absurd (hfin.mp hd) (by simp)
          · exact absurd hb (by simp [hidle])
      · refine iff_of_true ?_ fun _ => ha
        have hiter : (m.iterate scan parse l.config i).1.Matches := hm.iterate ha
        rcases iterate_cases scan parse m l i with ⟨-, -, he⟩ | ⟨-, he⟩
        · rw [he]
          exact fun h => nomatch h
        · rw [he]
          exact fun _ => hiter.finish

/-- After every handler the driver exists exactly in the states that use it, if and only if no
shutdown times out before the driver reports that the modem is down. -/
theorem settled_iff (es : List MainEvent) :
    (∀ pre, pre <+: es → Settled ((system scan parse).run {} pre)) ↔
      (system scan parse).Along Answered {} es :=
  System.throughout_iff_along (I := Looping) (fun _ _ => looping_next) (fun _ _ => settled_next)
    (fun _ h => nomatch h) (fun _ => .of_none rfl (by decide))

/-- The modem does not answer the shutdown request within 26 seconds. -/
def unanswered : List MainEvent :=
  startup ++ powerDown ++ [.config offConfig, .iteration { later := 26000 }]

/-- The driver survives the shutdown that timed out. -/
theorem driver_left_over : ¬ ∀ pre, pre <+: unanswered →
    Settled ((system plainScanner plainBool).run {} pre) := by
  intro h
  have hset := h unanswered (List.prefix_refl _)
  have hrun : ((system plainScanner plainBool).run {} unanswered).loop.isNone = true ∧
      ((system plainScanner plainBool).run {} unanswered).main.driver.isSome = true ∧
      ((system plainScanner plainBool).run {} unanswered).main.powerState = .poweringOff := by
    decide +kernel
  have hmatches := (hset (Option.isNone_iff_eq_none.mp hrun.1)).mp hrun.2.1
  rw [hrun.2.2] at hmatches
  exact absurd hmatches (by decide)

end Component

-- ---------------------------------------------------------------------------
-- The grace delay
-- ---------------------------------------------------------------------------

/-- A second passes between the modem being down and its power-off. -/
def Spaced (x y : Entered) : Prop :=
  x.state = .atGraceDelay → y.state = .poweringOff → x.time + 1000 ≤ y.time

instance : DecidableRel Spaced := fun _ _ => by unfold Spaced; infer_instance

namespace Main

/-- The modem was down a second ago, or the grace delay is not over. -/
structure Delayed (h : List Entered) (m : Main) : Prop where
  driver : m.powerState = .atGraceDelay → m.driver = none
  past : ∀ x ∈ h, x.state = .atGraceDelay →
    x.time + 1000 ≤ m.clock ∨ (m.powerState = .atGraceDelay ∧ x.time ≤ m.atPoweredDown)

variable {h : List Entered}

theorem Delayed.kept (hd : Delayed h m) (hk : Kept m m') : Delayed h m' where
  driver hs := hk.driver.trans (hd.driver (hk.powerState ▸ hs))
  past x hx hg := by
    have hclock := hk.clock
    rw [hk.powerState, hk.atPoweredDown]
    exact (hd.past x hx hg).imp_left fun _ => by omega

/-- Outside of the grace delay a second has passed since the modem was down. -/
theorem Delayed.elapsed (hd : Delayed h m) (hs : m.powerState ≠ .atGraceDelay) (hc : m.clock ≤ t)
    (x : Entered) (hx : x ∈ h) (hg : x.state = .atGraceDelay) : x.time + 1000 ≤ t := by
  rcases hd.past x hx hg with hp | hp
  · omega
  · exact absurd hp.1 hs

theorem Delayed.enter (hpast : ∀ x ∈ h, x.state = .atGraceDelay → x.time + 1000 ≤ m.clock)
    (hs : m.powerState ≠ .atGraceDelay) : Delayed (h ++ [⟨m.powerState, m.clock⟩]) m where
  driver hg := absurd hg hs
  past x hx hg := by
    rcases List.mem_append.mp hx with hx | hx
    · exact .inl (hpast x hx hg)
    · obtain rfl := List.mem_singleton.mp hx
      exact absurd hg hs

theorem spaced_of_elapsed (hpast : ∀ x ∈ h, x.state = .atGraceDelay → x.time + 1000 ≤ t) :
    EachGiven (fun pre y => ∀ x ∈ h ++ pre, Spaced x y) [⟨s, t⟩] := by
  rw [Library.eachGiven_singleton, List.append_nil]
  exact fun x hx hg _ => hpast x hx hg

/-- The grace delay begins. -/
theorem Delayed.complete (hd : Delayed h m) (hs : m.powerState ≠ .atGraceDelay) (hc : m.clock ≤ t)
    (hd' : m'.driver = none) (hs' : m'.powerState = .atGraceDelay) (hc' : m'.clock = t)
    (ht : m'.atPoweredDown = t) : Delayed (h ++ [⟨.atGraceDelay, t⟩]) m' where
  driver _ := hd'
  past x hx hg := by
    rcases List.mem_append.mp hx with hx | hx
    · exact .inl (hc' ▸ hd.elapsed hs hc x hx hg)
    · obtain rfl := List.mem_singleton.mp hx
      exact .inr ⟨hs', ht.ge⟩

/-- Entries other than a power-off are at no distance from anything. -/
theorem spaced_of_ne (hs : s ≠ .poweringOff) :
    EachGiven (fun pre y => ∀ x ∈ h ++ pre, Spaced x y) [⟨s, t⟩] := by
  rw [Library.eachGiven_singleton]
  exact fun x _ _ hoff => absurd hoff hs

theorem Delayed.move {r : Main × List Entered} (hd : Delayed h m) (hm : PowerMove parse config m r) :
    Delayed (h ++ r.2) r.1 ∧ EachGiven (fun pre y => ∀ x ∈ h ++ pre, Spaced x y) r.2 := by
  have hleave {s : PowerState} {m' : Main} {d : Option (Driver 256)} (hc : m.clock ≤ m'.clock)
      (hs : m.powerState ≠ .atGraceDelay) (hs' : s ≠ .atGraceDelay) :
      Delayed (h ++ [⟨s, m'.clock⟩]) { m' with driver := d, powerState := s } ∧
        EachGiven (fun pre y => ∀ x ∈ h ++ pre, Spaced x y) [⟨s, m'.clock⟩] := by
    have hpast := hd.elapsed hs hc
    exact ⟨Delayed.enter (m := { m' with driver := d, powerState := s }) hpast hs',
      spaced_of_elapsed hpast⟩
  cases hm with
  | stay hk => exact ⟨(List.append_nil h).symm ▸ hd.kept hk, Library.eachGiven_nil⟩
  | startup hk hs => exact hleave hk.clock (by rcases hs with hs | hs <;> simp [hs]) (by decide)
  | started hk hs d => exact hleave hk.clock (by simp [hs]) (by decide)
  | startedAlone hk hs => exact hleave hk.clock (by simp [hs]) (by decide)
  | shutdown hk _ hs =>
    refine hleave hk.clock ?_ (by decide)
    rintro hg
    simp [hg] at hs
  | stop hk hs =>
    refine hleave hk.clock ?_ (by decide)
    rintro hg
    simp [hg] at hs
  | @complete m' hk hs _ =>
    exact ⟨hd.complete (by simp [hs]) hk.clock rfl rfl rfl rfl, spaced_of_ne (by decide)⟩
  | @graceOver m' hk hs ht =>
    have hpast : ∀ x ∈ h, x.state = .atGraceDelay → x.time + 1000 ≤ m'.clock := by
      intro x hx hg
      have hclock := hk.clock
      rcases hd.past x hx hg with hp | ⟨-, hp⟩ <;> omega
    exact ⟨Delayed.enter (m := { m' with powerState := .poweringOff }) hpast (by simp),
      spaced_of_elapsed hpast⟩
  | off hk hs => exact hleave hk.clock (by simp [hs]) (by decide)

theorem Delayed.moves {r : Main × List Entered} (hd : Delayed h m) (hm : PowerMoves parse config m r) :
    Delayed (h ++ r.2) r.1 ∧ EachGiven (fun pre y => ∀ x ∈ h ++ pre, Spaced x y) r.2 := by
  obtain ⟨h₁, h₂⟩ := hm
  obtain ⟨hd₁, hg₁⟩ := hd.move h₁
  obtain ⟨hd₂, hg₂⟩ := hd₁.move h₂
  rw [Library.eachGiven_append]
  simp only [List.append_assoc] at hd₂ hg₂
  exact ⟨hd₂, hg₁, hg₂⟩

/-- What `AT_SHUTDOWN` takes for its readings of the timer decides on the distance. -/
theorem Delayed.applyPowerState (hd : Delayed h m) (scan : Scanner) (parse : BoolFormat) (config : MainConfig)
    (i : Surroundings) :
    (EachGiven (fun pre y => ∀ x ∈ h ++ pre, Spaced x y) (m.applyPowerState scan parse config i).2 ↔
      (m.TimesOut i → m.Down = true → 1000 ≤ i.later)) ∧
    ((m.TimesOut i → m.Down = true → 1000 ≤ i.later) →
      Delayed (h ++ (m.applyPowerState scan parse config i).2) (m.applyPowerState scan parse config i).1) := by
  have hcases := applyPowerState_cases scan parse m config i
  generalize m.applyPowerState scan parse config i = r at hcases ⊢
  rcases hcases with ⟨hno, hm⟩ | hg | hh
  · obtain ⟨hd', hg'⟩ := hd.moves hm
    exact ⟨iff_of_true hg' fun ht => absurd ht hno, fun _ => hd'⟩
  · have hs : m.powerState ≠ .atGraceDelay := by simp [hg.timesOut.1]
    have hpast := hd.elapsed hs hg.kept.clock
    rw [hg.entered]
    refine ⟨iff_of_true (spaced_of_elapsed hpast) fun _ hdown => ?_, fun _ => ?_⟩
    · exact absurd hdown (by simp [hg.down])
    · exact hg.powerState ▸ Delayed.enter hpast (by simp [hg.powerState])
  · have hs : m.powerState ≠ .atGraceDelay := by simp [hh.timesOut.1]
    have hclock := hh.clock
    have hpast := hd.elapsed hs (show m.clock ≤ r.1.clock by omega)
    rw [hh.entered]
    constructor
    · rw [Library.eachGiven_cons, Library.eachGiven_singleton]
      constructor
      · rintro ⟨-, hoff⟩ - -
        have : m.clock + i.delay + 1000 ≤ r.1.clock := hoff ⟨.atGraceDelay, m.clock + i.delay⟩ (by simp) rfl rfl
        omega
      · intro hlater
        have := hlater hh.timesOut hh.down
        refine ⟨fun x _ _ hoff => absurd hoff (by simp), fun x hx hg _ => ?_⟩
        rcases List.mem_append.mp hx with hx | hx
        · exact hpast x hx hg
        · obtain rfl := List.mem_singleton.mp hx
          simp only
          omega
    · intro hlater
      have := hlater hh.timesOut hh.down
      refine ⟨fun hg => absurd hg (by simp [hh.powerState]), fun x hx hg => .inl ?_⟩
      simp only [List.mem_append, List.mem_cons, List.not_mem_nil, or_false] at hx
      rcases hx with hx | rfl | rfl
      · exact hpast x hx hg
      · simp only
        omega
      · cases hg

theorem Delayed.applyDriver (hd : Delayed h m) (scan : Scanner) (config : MainConfig) (responses : List Text) :
    Delayed h (m.applyDriver scan config responses) := by
  cases hdrive : m.drivesAtProtocol with
  | false => rwa [applyDriver_of_not hdrive]
  | true =>
    obtain ⟨hc, -, ht, hs⟩ := applyDriver_fields scan config m responses
    have hne : m.powerState ≠ .atGraceDelay := by
      intro hg
      simp [drivesAtProtocol, hg] at hdrive
    refine ⟨fun hg => absurd (hs ▸ hg) hne, fun x hx hg => .inl ?_⟩
    exact hd.elapsed hne hc.ge x hx hg

theorem Delayed.finish (hd : Delayed h m) : Delayed (h ++ (m.finish l i).2) (m.finish l i).1 ∧
    EachGiven (fun pre y => ∀ x ∈ h ++ pre, Spaced x y) (m.finish l i).2 := by
  rcases finish_cases m l i with ⟨-, he, hk⟩ | ⟨hb, he, hk⟩
  · rw [he, List.append_nil]
    exact ⟨hd.kept hk, Library.eachGiven_nil⟩
  · have hs : m.powerState ≠ .atGraceDelay := by
      intro hg
      rw [busy_of_none (hd.driver hg)] at hb
      cases hb
    rw [he]
    refine ⟨Delayed.kept ?_ hk, spaced_of_ne (by decide)⟩
    exact Delayed.enter (m := { m with powerState := .atBusy }) (hd.elapsed hs le_rfl) (by simp)

theorem Delayed.handleTimer (hd : Delayed h m) (delay : Nat) :
    Delayed (h ++ (m.handleTimer delay).2) (m.handleTimer delay).1 ∧
      EachGiven (fun pre y => ∀ x ∈ h ++ pre, Spaced x y) (m.handleTimer delay).2 := by
  obtain ⟨hdr, hc, ht, hs⟩ := handleTimer_cases m delay
  rcases hs with ⟨hs, hs', he⟩ | ⟨hs, hs', he⟩
  · rw [he, ← hs', ← hc]
    refine ⟨Delayed.enter (hd.elapsed (by simp [hs]) (by omega)) (by simp [hs']), ?_⟩
    exact spaced_of_ne (by simp [hs'])
  · rw [he, List.append_nil]
    refine ⟨⟨fun hg => ?_, fun x hx hg => ?_⟩, Library.eachGiven_nil⟩
    · have := hd.driver (hs' ▸ hg)
      simpa [this] using hdr
    · rw [hs', ht]
      exact (hd.past x hx hg).imp_left fun _ => by omega

end Main

namespace Component

variable {scan : Scanner} {parse : BoolFormat} {c : Component} {h : List Entered}

/-- A shutdown that completes and times out at the same moment takes a second to notice it. -/
def InTime (c : Component) : MainEvent → Prop
  | .iteration i => c.loop.isSome → c.main.TimesOut i → c.main.Down = true → 1000 ≤ i.later
  | .config _ => True
  | .timer _ _ => True

theorem delayed_next {e : MainEvent} (hd : c.main.Delayed h) :
    (EachGiven (fun pre y => ∀ x ∈ h ++ pre, Spaced x y) ((system scan parse).obs c e) ↔ InTime c e) ∧
    (InTime c e → ((system scan parse).next c e).main.Delayed (h ++ (system scan parse).obs c e)) := by
  obtain ⟨m, loop⟩ := c
  have hstay : (EachGiven (fun pre y => ∀ x ∈ h ++ pre, Spaced x y) [] ↔ True) ∧
      (True → m.Delayed (h ++ [])) :=
    ⟨iff_of_true Library.eachGiven_nil trivial, fun _ => (List.append_nil h).symm ▸ hd⟩
  cases e with
  | config config => cases loop <;> exact hstay
  | timer config delay =>
    cases loop with
    | some l => exact hstay
    | none =>
      obtain ⟨hd', hg⟩ := Main.Delayed.handleTimer hd delay
      exact ⟨iff_of_true hg trivial, fun _ => hd'⟩
  | iteration i =>
    cases loop with
    | none => exact ⟨iff_of_true (hstay.1.mpr trivial) fun h => (nomatch h), fun _ => hstay.2 trivial⟩
    | some l =>
      have hin : InTime ⟨m, some l⟩ (.iteration i) ↔ (m.TimesOut i → m.Down = true → 1000 ≤ i.later) :=
        ⟨fun h => h rfl, fun h _ => h⟩
      have hnext : (system scan parse).step ⟨m, some l⟩ (.iteration i) = iterate scan parse m l i := rfl
      obtain ⟨hiff, hd'⟩ := Main.Delayed.applyPowerState hd scan parse l.config i
      rw [System.obs, System.next, hnext, hin]
      rcases iterate_cases scan parse m l i with ⟨-, -, he⟩ | ⟨-, he⟩
      · rw [he]
        exact ⟨hiff, fun hin => (hd' hin).applyDriver _ _ _⟩
      · have hfin (hin : m.TimesOut i → m.Down = true → 1000 ≤ i.later) :=
          Main.Delayed.finish (l := l) (i := i)
            ((hd' hin).applyDriver scan l.config i.responses)
        rw [he, Library.eachGiven_append, Main.iterate_fst, Main.iterate_snd]
        refine ⟨⟨fun h => hiff.mp h.1, fun hin => ⟨hiff.mpr hin, ?_⟩⟩, fun hin => ?_⟩
        · simpa only [List.append_assoc] using (hfin hin).2
        · simpa only [List.append_assoc] using (hfin hin).1

/-- Every power-off is a second away from the reports that the modem is down, if and only if no
shutdown completes and times out within that second. -/
theorem spaced_iff (es : List MainEvent) :
    ((system scan parse).log {} es).Pairwise Spaced ↔ (system scan parse).Along InTime {} es := by
  rw [Library.pairwise_iff_eachGiven]
  exact System.eachGiven_iff_along (S := system scan parse) (Q := fun pre y => ∀ x ∈ pre, Spaced x y)
    (I := fun h c => c.main.Delayed h) (h := []) (fun _ _ _ hd => (delayed_next hd).2)
    (fun _ _ _ hd => (delayed_next hd).1) ⟨fun h => (nomatch h), by simp⟩

/-- The modem is down 25.5 seconds after the request, which the manager notices half a second later. -/
def answeredLate : List MainEvent :=
  startup ++ powerDown ++ [.config offConfig,
    .iteration { later := 25500, responses := ["POWERED DOWN\r\n".toList] }, .iteration { delay := 500 }]

/-- The power goes off at the moment at which the grace delay begins. -/
theorem grace_delay_skipped :
    ¬ ((system plainScanner plainBool).log {} answeredLate).Pairwise Spaced := by
  decide +kernel

end Component

-- ---------------------------------------------------------------------------
-- The power-down operation
-- ---------------------------------------------------------------------------

namespace Control

variable {c : Control} {st : Status} {config : Config}

/-- A pass has the power-down operation scheduled, given that power is configured off. -/
def schedulesPowerDown (st : Status) (c : Control) : Bool :=
  let c := c.completeOperation st
  c.settingsReached st || c.constructed .powerDown

theorem constructed_applyPower (hoff : power.chars = "off".toList) (hup : st.poweredDown = false) :
    (c.applyPower st power).constructed .powerDown = true := by
  unfold applyPower
  rw [if_pos ⟨hoff, by simp [hup]⟩]
  unfold constructIfAbsent
  split
  · assumption
  · simp [constructed]

theorem constructed_powerDown_pass (hoff : config.powerValue.chars = "off".toList)
    (hup : st.poweredDown = false) :
    (c.pass st config).constructed .powerDown = c.schedulesPowerDown st := by
  unfold schedulesPowerDown
  cases hreached : (c.completeOperation st).settingsReached st with
  | true =>
    obtain ⟨c', he, -⟩ := pass_of_reached config hreached
    have hops : (c'.applySettings st config).ops .powerDown =
        (((c'.applyQcfg st st.qcfg).applyPin st config.pinValue).applyPower st config.powerValue).ops
          .powerDown := by
      rw [applySettings_ops config (by decide), beforeRing_ops config (by decide), beforeCall,
        touches_keepCallListUpToDate.ops _ (by decide), (touches_applyHangUp _).ops _ (by decide)]
    rw [he, constructed_congr hops, constructed_applyPower hoff hup]
    simp [hreached]
  | false =>
    have ht := touches_pass_of_not_reached (c := c) config hreached
    rw [constructed_congr (ht.ops .powerDown (by decide))]
    simp [hreached]

end Control

namespace Driver

variable {scan : Scanner} {d : Driver maxLineLen} {config : Config} {responses : List Text}

/-- The lines received leave the busy count at `orig`, or the driver still waits for the modem to be
down. -/
def StaysDown (scan : Scanner) (d : Driver maxLineLen) (orig : UInt32) (responses : List Text) : Prop :=
  let st := d.received scan responses
  st.busyCount = orig ∨ (st.poweredDown = false ∧ d.control.schedulesPowerDown st = true)

theorem status_apply (scan : Scanner) (d : Driver maxLineLen) (config : Config) (responses : List Text) :
    (d.apply scan config responses).1.status.busyCount = (d.received scan responses).busyCount ∧
      (d.apply scan config responses).1.status.poweredDown = (d.received scan responses).poweredDown := by
  unfold apply
  dsimp only
  cases (d.control.applyConfig (d.received scan responses) config).2 with
  | none => exact ⟨rfl, rfl⟩
  | some s => simp only [Status.commandSubmitted_eq, and_self]

/-- With power configured off, the driver powers the modem down unless the modem is down, or the
operation is gone and cannot be scheduled anew. -/
theorem poweringDown_apply (hoff : config.powerValue.chars = "off".toList) :
    (d.apply scan config responses).1.poweringDown =
      (d.control.schedulesPowerDown (d.received scan responses) &&
        !(d.received scan responses).poweredDown) := by
  have hcontrol : (d.apply scan config responses).1.control =
      (d.control.applyConfig (d.received scan responses) config).1 := rfl
  rw [poweringDown, (status_apply scan d config responses).2, Control.powerDownScheduled, hcontrol,
    Control.constructed_applyConfig]
  cases hup : (d.received scan responses).poweredDown with
  | true => simp
  | false => rw [Control.constructed_powerDown_pass hoff hup]

theorem busy_apply (scan : Scanner) (d : Driver maxLineLen) (responses : List Text)
    (hoff : config.powerValue.chars = "off".toList) (orig : UInt32) :
    (!(d.apply scan config responses).1.poweringDown &&
      decide (orig ≠ (d.apply scan config responses).1.status.busyCount)) = false ↔
      d.StaysDown scan orig responses := by
  rw [poweringDown_apply hoff, (status_apply scan d config responses).1, StaysDown]
  by_cases hcount : (d.received scan responses).busyCount = orig
  · simp [hcount]
  · cases hdown : (d.received scan responses).poweredDown <;>
      cases hsch : d.control.schedulesPowerDown (d.received scan responses) <;>
      simp [hcount, Ne.symm hcount]

end Driver

-- ---------------------------------------------------------------------------
-- No way back
-- ---------------------------------------------------------------------------

namespace PowerState

/-- On the way to power off. -/
def Forward (s : PowerState) : Prop := s ∈ [.atShutdown, .atGraceDelay, .poweringOff, .powerOff]

/-- The modem is up. -/
def Up (s : PowerState) : Prop := s ∈ [.atProtocol, .atBusy, .powerOn]

instance : DecidablePred Forward := fun _ => by unfold Forward; infer_instance
instance : DecidablePred Up := fun _ => by unfold Up; infer_instance

theorem Forward.not_up {s : PowerState} (h : s.Forward) : ¬ s.Up := by
  revert h
  cases s <;> decide

end PowerState

/-- What is on the way to power off does not come up again. -/
def NoReturn (x y : Entered) : Prop := x.state.Forward → ¬ y.state.Up

instance : DecidableRel NoReturn := fun _ _ => by unfold NoReturn; infer_instance

/-- The configuration says `power="off"`. -/
def MainConfig.Off (config : MainConfig) : Prop := config.power = some "off".toList

theorem MainConfig.Off.powerValue {config : MainConfig} (h : config.Off) :
    config.toConfig.powerValue.chars = "off".toList := by
  rw [Config.powerValue, h]
  decide

theorem MainConfig.Off.attributeBool {config : MainConfig} {parse : BoolFormat}
    (hoff : parse "off".toList = some false) (h : config.Off) (default : Bool) :
    attributeBool parse config.power default = false := by
  unfold Modem.attributeBool
  rw [show config.power = _ from h]
  simp only [hoff, Option.getD_some]

namespace Main

variable {scan : Scanner} {parse : BoolFormat} {config : MainConfig} {m m' : Main} {i : Surroundings}
  {h : List Entered} {t : Nat} {s : PowerState} {orig : UInt32}

/-- The log holds a state on the way to power off exactly if the manager is on it. -/
def Tracks (h : List Entered) (m : Main) : Prop :=
  (∃ x ∈ h, x.state.Forward) ↔ m.powerState.Forward

theorem Tracks.congr (ht : Tracks h m) (hs : m'.powerState = m.powerState) : Tracks h m' := by
  rw [Tracks, hs]
  exact ht

/-- A new state is logged; it is the way back exactly if the manager was on the way to
power off. -/
theorem Tracks.singleton_iff (ht : Tracks h m) :
    EachGiven (fun pre y => ∀ x ∈ h ++ pre, NoReturn x y) [⟨s, t⟩] ↔ (m.powerState.Forward → ¬ s.Up) := by
  rw [Library.eachGiven_singleton, List.append_nil]
  constructor
  · intro hno hf
    obtain ⟨x, hx, hxf⟩ := ht.mpr hf
    exact hno x hx hxf
  · exact fun hno x hx hxf => hno (ht.mp ⟨x, hx, hxf⟩)

theorem Tracks.enter (ht : Tracks h m) (hs : m'.powerState = s) (hf : m.powerState.Forward → s.Forward) :
    Tracks (h ++ [⟨s, t⟩]) m' := by
  rw [Tracks, hs]
  constructor
  · rintro ⟨x, hx, hxf⟩
    rcases List.mem_append.mp hx with hx | hx
    · exact hf (ht.mp ⟨x, hx, hxf⟩)
    · obtain rfl := List.mem_singleton.mp hx
      exact hxf
  · exact fun hsf => ⟨⟨s, t⟩, by simp, hsf⟩

theorem Tracks.forward (ht : Tracks h m) (hs : m'.powerState = s)
    (hf : m.powerState.Forward → s.Forward) : Tracks (h ++ [⟨s, t⟩]) m' ∧
      EachGiven (fun pre y => ∀ x ∈ h ++ pre, NoReturn x y) [⟨s, t⟩] :=
  ⟨ht.enter hs hf, ht.singleton_iff.mpr fun hm => (hf hm).not_up⟩

theorem Tracks.move {r : Main × List Entered} (ht : Tracks h m)
    (hoff : attributeBool parse config.power false = false) (hm : PowerMove parse config m r) :
    Tracks (h ++ r.2) r.1 ∧ EachGiven (fun pre y => ∀ x ∈ h ++ pre, NoReturn x y) r.2 := by
  cases hm with
  | stay hk =>
    refine ⟨?_, Library.eachGiven_nil⟩
    rw [List.append_nil]
    exact ht.congr hk.powerState
  | startup hk hs hon => exact absurd (hon.symm.trans hoff) (by simp)
  | started hk hs d => exact ht.forward rfl fun hf => absurd hf (by simp [hs, PowerState.Forward])
  | startedAlone hk hs => exact ht.forward rfl fun hf => absurd hf (by simp [hs, PowerState.Forward])
  | shutdown hk _ hs => exact ht.forward rfl fun _ => by decide
  | stop hk hs => exact ht.forward rfl fun _ => by decide
  | complete hk hs _ => exact ht.forward rfl fun _ => by decide
  | graceOver hk hs _ => exact ht.forward rfl fun _ => by decide
  | off hk hs => exact ht.forward rfl fun _ => by decide

theorem Tracks.applyPowerState (ht : Tracks h m) (scan : Scanner) (i : Surroundings)
    (hoff : attributeBool parse config.power false = false) :
    Tracks (h ++ (m.applyPowerState scan parse config i).2) (m.applyPowerState scan parse config i).1 ∧
      EachGiven (fun pre y => ∀ x ∈ h ++ pre, NoReturn x y) (m.applyPowerState scan parse config i).2 := by
  have hcases := applyPowerState_cases scan parse m config i
  generalize m.applyPowerState scan parse config i = r at hcases ⊢
  rcases hcases with ⟨-, hm⟩ | hg | hh
  · obtain ⟨h₁, h₂⟩ := hm
    obtain ⟨ht₁, hg₁⟩ := ht.move hoff h₁
    obtain ⟨ht₂, hg₂⟩ := ht₁.move hoff h₂
    rw [Library.eachGiven_append]
    simp only [List.append_assoc] at ht₂ hg₂
    exact ⟨ht₂, hg₁, hg₂⟩
  · rw [hg.entered]
    exact ht.forward hg.powerState fun _ => by decide
  · have hgrace : Tracks (h ++ [⟨.atGraceDelay, m.clock + i.delay⟩]) { m with powerState := .atGraceDelay } ∧
        EachGiven (fun pre y => ∀ x ∈ h ++ pre, NoReturn x y) [⟨.atGraceDelay, m.clock + i.delay⟩] :=
      ht.forward rfl fun _ => by decide
    obtain ⟨ht₁, hg₁⟩ := hgrace
    obtain ⟨ht₂, hg₂⟩ := ht₁.forward (t := r.1.clock) hh.powerState fun _ => by decide
    have hsplit : r.2 = [⟨.atGraceDelay, m.clock + i.delay⟩] ++ [⟨.poweringOff, r.1.clock⟩] := hh.entered
    rw [hsplit, Library.eachGiven_append]
    simp only [List.append_assoc] at ht₂ hg₂
    exact ⟨ht₂, hg₁, hg₂⟩

/-- A move removes the driver, keeps it, or brings up the AT protocol. -/
theorem driver_move {r : Main × List Entered} (hm : PowerMove parse config m r) :
    r.1.driver = none ∨ (r.1.driver = m.driver ∧
      (m.powerState = .atProtocol → r.1.powerState ∈ [.atProtocol, .atShutdown])) ∨
    r.1.powerState = .atProtocol := by
  cases hm with
  | stay hk => exact .inr (.inl ⟨hk.driver, fun hs => by simp [hk.powerState, hs]⟩)
  | startup hk hs =>
    exact .inr (.inl ⟨hk.driver, fun hs' => by rcases hs with hs | hs <;> simp [hs] at hs'⟩)
  | started hk hs d => exact .inr (.inr rfl)
  | startedAlone hk hs => exact .inr (.inl ⟨hk.driver, fun hs' => by simp [hs] at hs'⟩)
  | shutdown hk _ hs => exact .inr (.inl ⟨hk.driver, fun _ => by simp [enter]⟩)
  | stop hk hs =>
    rcases hs with hs | ⟨hd, -⟩
    · exact .inr (.inl ⟨hk.driver, fun hs' => by simp [hs] at hs'⟩)
    · exact .inl (hk.driver.trans hd)
  | complete hk hs _ => exact .inl rfl
  | graceOver hk hs _ => exact .inr (.inl ⟨hk.driver, fun hs' => by simp [hs] at hs'⟩)
  | off hk hs => exact .inr (.inl ⟨hk.driver, fun hs' => by simp [hs] at hs'⟩)

/-- Past `AT_SHUTDOWN` there is no driver but one that was there before. -/
theorem driver_moves {r : Main × List Entered} (hm : PowerMoves parse config m r)
    (hs : r.1.powerState ∉ [.atProtocol, .atShutdown]) : r.1.driver = none ∨ r.1.driver = m.driver := by
  have hne : r.1.powerState ≠ .atProtocol := fun h => hs (by simp [h])
  obtain @⟨m₁, es₁, m₂, es₂, h₁, h₂⟩ := hm
  rcases driver_move h₂ with hnone | ⟨hkept, hstay⟩ | hup
  · exact .inl hnone
  · rcases driver_move h₁ with hnone | ⟨hkept₁, -⟩ | hup
    · exact .inl (hkept.trans hnone)
    · exact .inr (hkept.trans hkept₁)
    · exact absurd (hstay hup) hs
  · exact absurd hup hne

theorem busy_applyPowerState (scan : Scanner) (parse : BoolFormat) (config : MainConfig) (i : Surroundings)
    (hbusy : m.busy orig = false)
    (hs : (m.applyPowerState scan parse config i).1.powerState ∉ [.atProtocol, .atShutdown]) :
    (m.applyPowerState scan parse config i).1.busy orig = false := by
  have hcases := applyPowerState_cases scan parse m config i
  generalize m.applyPowerState scan parse config i = r at hcases hs ⊢
  have hdriver : r.1.driver = none ∨ r.1.driver = m.driver := by
    rcases hcases with ⟨-, hm⟩ | hg | hh
    · exact driver_moves hm hs
    · exact .inr hg.kept.driver
    · exact .inl hh.driver
  rcases hdriver with hd | hd
  · exact busy_of_none hd orig
  · exact (busy_congr hd orig).trans hbusy

/-- The power state behind an iteration is not overridden while it leads to power off, exactly if
the driver stays down. -/
theorem busy_iterate (scan : Scanner) (parse : BoolFormat) (i : Surroundings) (hoff : config.Off) (hbusy : m.busy orig = false) :
    ((m.iterate scan parse config i).1.busy orig = true →
      ¬ (m.applyPowerState scan parse config i).1.powerState.Forward) ↔
    ((m.applyPowerState scan parse config i).1.powerState = .atShutdown →
      ∀ d ∈ (m.applyPowerState scan parse config i).1.driver, d.StaysDown scan orig i.responses) := by
  have hafter := busy_applyPowerState scan parse config i hbusy
  rw [iterate_fst]
  generalize m.applyPowerState scan parse config i = r at hafter ⊢
  by_cases hs : r.1.powerState = .atShutdown
  · have hf : r.1.powerState.Forward := by
      rw [hs]
      decide
    have hdrive : r.1.drivesAtProtocol = true := by simp [drivesAtProtocol, hs]
    cases hd : r.1.driver with
    | none =>
      have hnone : (r.1.applyDriver scan config i.responses).busy orig = false :=
        busy_of_none (by simp [applyDriver, hdrive, hd]) orig
      exact iff_of_true (fun h => absurd h (by simp [hnone])) fun _ d hd => by cases hd
    | some d =>
      have hb : (r.1.applyDriver scan config i.responses).busy orig =
          (!(d.apply scan config.toConfig i.responses).1.poweringDown &&
            decide (orig ≠ (d.apply scan config.toConfig i.responses).1.status.busyCount)) := by
        simp [applyDriver, hdrive, hd, busy]
      have hiff := Driver.busy_apply scan d i.responses hoff.powerValue orig
      rw [← hb] at hiff
      constructor
      · rintro h - d' ⟨⟩
        refine hiff.mp ?_
        by_contra hbusy
        exact h (by simpa using hbusy) hf
      · intro h hbusy
        have := hiff.mpr (h hs d rfl)
        simp [this] at hbusy
  · refine iff_of_true ?_ fun h => absurd h hs
    intro hb hf
    have hne : r.1.powerState ∉ [.atProtocol, .atShutdown] := by
      intro hmem
      simp only [List.mem_cons, List.not_mem_nil, or_false] at hmem
      rcases hmem with hmem | hmem
      · rw [hmem] at hf
        exact absurd hf (by decide)
      · exact hs hmem
    have hdrive : r.1.drivesAtProtocol = false := by simpa [drivesAtProtocol] using hne
    rw [applyDriver_of_not hdrive, hafter hne] at hb
    cases hb

theorem Tracks.handleTimer (ht : Tracks h m) (delay : Nat) :
    Tracks (h ++ (m.handleTimer delay).2) (m.handleTimer delay).1 ∧
      EachGiven (fun pre y => ∀ x ∈ h ++ pre, NoReturn x y) (m.handleTimer delay).2 := by
  obtain ⟨-, -, -, hs⟩ := handleTimer_cases m delay
  rcases hs with ⟨hs, hs', he⟩ | ⟨-, hs', he⟩
  · have hno : ¬ m.powerState.Forward := by simp [hs, PowerState.Forward]
    rw [he]
    exact ht.forward hs' fun hf => absurd hf hno
  · rw [he, List.append_nil]
    exact ⟨ht.congr hs', Library.eachGiven_nil⟩

end Main

def MainEvent.Off : MainEvent → Prop
  | .config c => c.Off
  | .timer c _ => c.Off
  | .iteration _ => True

namespace Component

variable {scan : Scanner} {parse : BoolFormat} {c : Component} {h : List Entered}

/-- Where the driver is applied in `AT_SHUTDOWN`, it stays down. -/
def Held (scan : Scanner) (parse : BoolFormat) (c : Component) : MainEvent → Prop
  | .iteration i => ∀ l ∈ c.loop,
    (c.main.applyPowerState scan parse l.config i).1.powerState = .atShutdown →
      ∀ d ∈ (c.main.applyPowerState scan parse l.config i).1.driver,
        d.StaysDown scan l.origBusyCount i.responses
  | .config _ => True
  | .timer _ _ => True

/-- The log agrees with the power state, and the loop is under way with power configured off. -/
structure OffLoop (h : List Entered) (c : Component) : Prop where
  tracks : c.main.Tracks h
  loop : ∀ l ∈ c.loop, l.config.Off ∧ c.main.busy l.origBusyCount = false

theorem offLoop_iteration {m : Main} {l : MainLoop} {i : Surroundings} (hparse : parse "off".toList = some false)
    (ht : m.Tracks h) (hoff : l.config.Off) (hbusy : m.busy l.origBusyCount = false) :
    (EachGiven (fun pre y => ∀ x ∈ h ++ pre, NoReturn x y) (iterate scan parse m l i).2 ↔
      Held scan parse ⟨m, some l⟩ (.iteration i)) ∧
    (Held scan parse ⟨m, some l⟩ (.iteration i) →
      OffLoop (h ++ (iterate scan parse m l i).2) (iterate scan parse m l i).1) := by
  obtain ⟨ht₁, hg₁⟩ := ht.applyPowerState scan i (hoff.attributeBool hparse false)
  have hheld := Main.busy_iterate scan parse i hoff hbusy
  have hdef : Held scan parse ⟨m, some l⟩ (.iteration i) ↔
      ((m.applyPowerState scan parse l.config i).1.powerState = .atShutdown →
        ∀ d ∈ (m.applyPowerState scan parse l.config i).1.driver,
          d.StaysDown scan l.origBusyCount i.responses) := by
    simp [Held]
  rw [hdef, ← hheld]
  have hstate : (m.iterate scan parse l.config i).1.powerState =
      (m.applyPowerState scan parse l.config i).1.powerState :=
    (Main.applyDriver_fields _ _ _ i.responses).2.2.2
  have ht₂ : (m.iterate scan parse l.config i).1.Tracks (h ++ (m.iterate scan parse l.config i).2) :=
    ht₁.congr hstate
  rw [← hstate]
  rcases iterate_cases scan parse m l i with ⟨hidle, -, he⟩ | ⟨-, he⟩
  · rw [he]
    refine ⟨iff_of_true hg₁ fun hb => absurd hb (by simp [hidle]), fun _ => ⟨ht₂, ?_⟩⟩
    rintro l' ⟨⟩
    exact ⟨hoff, hidle⟩
  · rw [he, Library.eachGiven_append]
    rcases Main.finish_cases (m.iterate scan parse l.config i).1 l i with ⟨hidle, hnil, hk⟩ | ⟨hb, hone, hk⟩
    · rw [hnil]
      refine ⟨iff_of_true ⟨hg₁, Library.eachGiven_nil⟩ fun hb => absurd hb (by simp [hidle]), fun _ => ⟨?_, ?_⟩⟩
      · rw [List.append_nil]
        exact ht₂.congr hk.powerState
      · exact fun l' hl' => nomatch hl'
    · have hno := ht₂.singleton_iff (s := .atBusy) (t := (m.iterate scan parse l.config i).1.clock)
      simp only [List.append_assoc] at hno
      rw [hone, hno]
      have hup : ¬ ¬ PowerState.atBusy.Up := by decide
      constructor
      · exact ⟨fun h _ hf => hup (h.2 hf), fun h => ⟨hg₁, fun hf => absurd hf (h hb)⟩⟩
      · intro h
        rw [← List.append_assoc]
        exact ⟨ht₂.enter hk.powerState fun hf => absurd hf (h hb), fun l' hl' => nomatch hl'⟩

theorem offLoop_next {e : MainEvent} (hparse : parse "off".toList = some false) (hc : OffLoop h c)
    (he : e.Off) :
    (EachGiven (fun pre y => ∀ x ∈ h ++ pre, NoReturn x y) ((system scan parse).obs c e) ↔
      Held scan parse c e) ∧
    (Held scan parse c e → OffLoop (h ++ (system scan parse).obs c e) ((system scan parse).next c e)) := by
  obtain ⟨m, loop⟩ := c
  have hstay : OffLoop (h ++ []) ⟨m, loop⟩ := (List.append_nil h).symm ▸ hc
  cases loop with
  | some l =>
    cases e with
    | config config => exact ⟨iff_of_true Library.eachGiven_nil trivial, fun _ => hstay⟩
    | timer config delay => exact ⟨iff_of_true Library.eachGiven_nil trivial, fun _ => hstay⟩
    | iteration i =>
      obtain ⟨hoff, hbusy⟩ := hc.loop l rfl
      exact offLoop_iteration hparse hc.tracks hoff hbusy
  | none =>
    cases e with
    | config config =>
      refine ⟨iff_of_true Library.eachGiven_nil trivial, fun _ => ⟨hstay.tracks, ?_⟩⟩
      rintro l ⟨⟩
      exact ⟨he, Main.busy_startLoop⟩
    | timer config delay =>
      obtain ⟨ht, hg⟩ := Main.Tracks.handleTimer hc.tracks delay
      refine ⟨iff_of_true hg trivial, fun _ => ⟨ht, ?_⟩⟩
      rintro l ⟨⟩
      exact ⟨he, Main.busy_startLoop⟩
    | iteration i =>
      exact ⟨iff_of_true Library.eachGiven_nil fun l hl => (nomatch hl), fun _ => hstay⟩

/-- While power is configured off, the manager does not return from the way to power off, if and
only if in `AT_SHUTDOWN` the driver stays down whenever it is applied. -/
theorem noReturn_iff (hparse : parse "off".toList = some false) (m : Main) (es : List MainEvent)
    (hes : ∀ e ∈ es, e.Off) :
    (⟨m.powerState, m.clock⟩ :: (system scan parse).log { main := m } es).Pairwise NoReturn ↔
      (system scan parse).Along (Held scan parse) { main := m } es := by
  have hinit : OffLoop [⟨m.powerState, m.clock⟩] { main := m } :=
    ⟨by simp [Main.Tracks], fun l hl => nomatch hl⟩
  rw [Library.pairwise_iff_eachGiven, Library.eachGiven_cons, and_iff_right (by simp)]
  exact System.eachGiven_iff_along_of (S := system scan parse) (Q := fun pre y => ∀ x ∈ pre, NoReturn x y)
    (D := MainEvent.Off) (I := OffLoop) (fun _ _ _ hc he => (offLoop_next hparse hc he).2)
    (fun _ _ _ hc he => (offLoop_next hparse hc he).1) hinit hes

/-- The manager with the AT protocol in use. -/
def running : Main := ((system plainScanner plainBool).run {} startup).main

/-- The modem reports that it is down, while the manager waits for it. -/
def poweredDown : List MainEvent :=
  powerDown ++ [.config offConfig, .iteration { responses := ["POWERED DOWN\r\n".toList] }, .iteration {}]

theorem held_poweredDown :
    (system plainScanner plainBool).Along (Held plainScanner plainBool) { main := running } poweredDown :=
  (noReturn_iff (by decide) running poweredDown
    (by simp [poweredDown, powerDown, MainEvent.Off, MainConfig.Off, offConfig])).mp (by decide +kernel)

/-- An error precedes the report in the same batch. -/
def erroneous : List MainEvent :=
  powerDown ++ [.config offConfig, .iteration { responses := ["ERROR\r\nPOWERED DOWN\r\n".toList] }]

/-- The manager takes the modem that is down for a busy one. -/
theorem busy_again : ¬ ∀ m es, (∀ e ∈ es, MainEvent.Off e) →
    (⟨m.powerState, m.clock⟩ :: (system plainScanner plainBool).log { main := m } es).Pairwise NoReturn := by
  intro h
  have hoff : ∀ e ∈ erroneous, e.Off := by
    simp [erroneous, powerDown, MainEvent.Off, MainConfig.Off, offConfig]
  exact absurd (h running erroneous hoff) (by decide +kernel)

end Component

end Allwinner.Modem
