import Allwinner.Modem.ControlLaws
import Allwinner.Modem.Driver
import Allwinner.Modem.StatusLaws

/-!
# Status and operations agree

What holds of the status and the operations between two calls, on every run:
at most one operation is submitted, a pending command is the submitted one's,
and the operations present fit the state of the modem's startup.
-/

namespace Allwinner.Modem

open Library (System)

variable {scan : Scanner} {maxLineLen : Nat}

-- ---------------------------------------------------------------------------
-- Commands
-- ---------------------------------------------------------------------------

/-- What every command of a kind starts with. -/
def Kind.verb : Kind → Text
  | .checkReady => atCheckReady
  | .disableEcho => atDisableEcho
  | .powerDown => atPowerDown
  | .ring => []
  | .setPin => "AT+CPIN=".toList
  | .requestPinState => "AT+CPIN?".toList
  | .requestPinCount => "AT+QPINC?".toList
  | .reboot => atReboot
  | .queryQcfg => atQcfgPrefix
  | .assignQcfg => atQcfgPrefix
  | .hangUp => atHangUp
  | .requestCallList => atRequestCallList
  | .initiateCall => "ATD".toList
  | .acceptCall => atAcceptCall

theorem Request.verb_prefix (r : Request k) : k.verb <+: r.command.chars := by
  cases r with
  | ring command => exact List.nil_prefix
  | setPin pin => exact Str.prefix_ofText (List.prefix_append _ _) (by decide) (by decide)
  | queryQcfg name =>
    refine Str.prefix_ofText ?_ (by decide) (by decide)
    simp only [List.append_assoc]
    exact List.prefix_append _ _
  | assignQcfg name value =>
    refine Str.prefix_ofText ?_ (by decide) (by decide)
    simp only [List.append_assoc]
    exact List.prefix_append _ _
  | initiateCall number =>
    refine Str.prefix_ofText ?_ (by decide) (by decide)
    simp only [List.append_assoc]
    exact List.prefix_append _ _
  | _ => decide

/-- Only the probe is shorter than the other commands that start like it. -/
theorem Request.verb_of_command (r : Request k) (h : r.command.chars = t) :
    k.verb <+: t ∧ (k = .checkReady → t = atCheckReady) := by
  refine ⟨h ▸ r.verb_prefix, ?_⟩
  rintro rfl
  cases r
  exact h ▸ by decide

/-- Two kinds whose commands start alike have verbs that do. -/
theorem Request.verb_prefix_or (r : Request k) (h : t <+: r.command.chars) :
    k.verb <+: t ∨ t <+: k.verb :=
  List.prefix_or_prefix_of_prefix r.verb_prefix h

theorem Request.kind_of_reboot (r : Request k) (h : r.command.chars = atReboot) :
    k = .ring ∨ k = .reboot := by
  obtain ⟨hv, hc⟩ := r.verb_of_command h
  cases k <;> revert hv hc <;> decide

theorem Request.kind_of_disableEcho (r : Request k) (h : r.command.chars = atDisableEcho) :
    k = .ring ∨ k = .disableEcho := by
  obtain ⟨hv, hc⟩ := r.verb_of_command h
  cases k <;> revert hv hc <;> decide

-- ---------------------------------------------------------------------------
-- Completion and submission
-- ---------------------------------------------------------------------------

/-- `j` is submitted in front of `k`. -/
def Kind.before (j k : Kind) : Bool := Kind.all.idxOf j < Kind.all.idxOf k

namespace Control

variable {c : Control} {st : Status} {config : Config} {j k : Kind}

theorem anyOperationInFlight_iff : c.anyOperationInFlight = true ↔ ∃ k, c.submitted k := by
  simp [anyOperationInFlight, List.any_eq_true, Kind.mem_all]

theorem nextPending_some (h : c.nextPending = some k) :
    c.pending k ∧ ∀ j, j.before k → c.pending j = false := by
  obtain ⟨hk, as, bs, hall, has⟩ := List.find?_eq_some_iff_append.mp h
  refine ⟨hk, fun j hj => ?_⟩
  have hidx : Kind.all.idxOf k ≤ as.length := by
    rw [hall, List.idxOf_append]
    split
    · exact List.idxOf_le_length
    · simp
  have hjas : j ∈ as := by
    by_contra hn
    have : as.length ≤ Kind.all.idxOf j := by
      rw [hall, List.idxOf_append, if_neg hn]
      exact Nat.le_add_left _ _
    simp only [Kind.before, decide_eq_true_eq] at hj
    omega
  simpa using has j hjas

theorem nextPending_none (h : c.nextPending = none) (k : Kind) : c.pending k = false := by
  simpa using List.find?_eq_none.mp h k (Kind.mem_all k)

/-- What `apply_config` does after the pass: nothing while an operation is in
flight or when there is no operation, else it submits the first pending one. -/
theorem applyConfig_cases (st : Status) (config : Config) (c : Control) :
    (∃ j, (c.pass st config).submitted j) ∧ c.applyConfig st config = (c.pass st config, none)
    ∨ (∀ j, (c.pass st config).constructed j = false) ∧
        c.applyConfig st config = (c.pass st config, none)
    ∨ ∃ k, ∃ r : Request k, (∀ j, (c.pass st config).submitted j = false) ∧
        (c.pass st config).ops k = some { request := r } ∧
        (∀ j, j.before k → (c.pass st config).constructed j = false) ∧
        c.applyConfig st config =
          ({ c.pass st config with
              ops := Function.update (c.pass st config).ops k (some { request := r, state := .submitted }) },
            some ⟨k, r⟩) := by
  unfold applyConfig
  dsimp only
  split
  · rename_i h
    exact .inl ⟨anyOperationInFlight_iff.mp h, rfl⟩
  · rename_i h
    have hidle : ∀ j, (c.pass st config).submitted j = false := by
      intro j
      by_contra hj
      exact h (anyOperationInFlight_iff.mpr ⟨j, by simpa using hj⟩)
    have habsent : ∀ j, (c.pass st config).pending j = false →
        (c.pass st config).constructed j = false := by
      intro j hj
      by_contra hc
      rcases constructed_cases (by simpa using hc) with hc | hc
      · simp [hj] at hc
      · simp [hidle j] at hc
    unfold submitOnePendingOperation
    cases hn : (c.pass st config).nextPending with
    | none => exact .inr (.inl ⟨fun j => habsent j (nextPending_none hn j), rfl⟩)
    | some k =>
      obtain ⟨hk, hbefore⟩ := nextPending_some hn
      obtain ⟨⟨r, state⟩, hop, rfl⟩ := pending_iff.mp hk
      refine .inr (.inr ⟨k, r, hidle, hop, fun j hj => habsent j (hbefore j hj), ?_⟩)
      simp only [hop]

/-- A submission changes no other operation. -/
theorem constructed_submit {r : Request k} (hop : c.ops k = some { request := r }) (j : Kind) :
    ({ c with ops := Function.update c.ops k (some { request := r, state := .submitted }) } :
      Control).constructed j = c.constructed j := by
  by_cases hj : j = k
  · subst hj
    simp [constructed, hop]
  · simp [constructed, hj]

theorem constructed_applyConfig (st : Status) (config : Config) (c : Control) (j : Kind) :
    (c.applyConfig st config).1.constructed j = (c.pass st config).constructed j := by
  rcases applyConfig_cases st config c with ⟨-, he⟩ | ⟨-, he⟩ | ⟨k, r, -, hop, -, he⟩
  · rw [he]
  · rw [he]
  · rw [he]
    exact constructed_submit hop j

theorem completeOperation_of_not_ok (h : st.ok = false) : c.completeOperation st = c := by
  simp [completeOperation, h]

/-- `OK` completes the one operation that is submitted. -/
theorem completeOperation_of_ok (hok : st.ok = true)
    (hone : ∀ j, c.submitted j → j = k) (hk : c.submitted k) :
    c.completeOperation st = c.destruct k := by
  unfold completeOperation
  rw [if_pos hok]
  cases hf : Kind.all.find? c.submitted with
  | none => exact absurd hk (List.find?_eq_none.mp hf k (Kind.mem_all k))
  | some j => rw [hone j (List.find?_some hf)]

end Control

-- ---------------------------------------------------------------------------
-- The invariant
-- ---------------------------------------------------------------------------

/-- What holds of status and operations once `OK` has retired its operation. -/
structure Ordered (st : Status) (c : Control) : Prop where
  one : ∀ j k, c.submitted j → c.submitted k → j = k
  owner : ∀ cmd k r, st.pendingCommand = some cmd →
    c.ops k = some ⟨r, .submitted⟩ → r.command = cmd
  fresh : st.Fresh
  echo : c.constructed .disableEcho → st.echoDisabled = false
  echoProbed : c.submitted .disableEcho → st.pendingCommand ≠ none → st.atOk = true
  ring : c.constructed .ring → st.echoDisabled = true
  rebootLast : c.submitted .reboot → ¬ c.constructed .ring
  rebootAlone : c.constructed .reboot → ¬ c.constructed .disableEcho

/-- What holds of status and operations between two calls. -/
structure Coherent (st : Status) (c : Control) : Prop extends Ordered st c where
  probe : c.constructed .checkReady → st.atOk = false
  busy : st.pendingCommand ≠ none → (∃ k, c.submitted k) ∨ ∀ k, ¬ c.constructed k

namespace Coherent

variable {s st : Status} {c : Control} {ls : List Text}

/-- A pending command of a text that only few kinds submit is one of theirs. -/
theorem owner_kind (h : Coherent s c) {t : Text} (hp : Status.isPending s.pendingCommand t = true)
    (hj : c.constructed j) : ∃ k, ∃ r : Request k, c.submitted k ∧ r.command.chars = t := by
  obtain ⟨cmd, hcmd, ht⟩ : ∃ cmd, s.pendingCommand = some cmd ∧ cmd.chars = t := by
    simpa [Status.isPending, Option.any_eq_true] using hp
  rcases h.busy (by simp [hcmd]) with ⟨k, hk⟩ | hnone
  · obtain ⟨⟨r, state⟩, hop, rfl⟩ := Control.submitted_iff.mp hk
    exact ⟨k, r, hk, by rw [h.owner cmd k r hcmd hop, ht]⟩
  · exact absurd hj (hnone j)

/-- Once `OK` arrived, the operation submitted before is gone. -/
theorem retired (h : Coherent s c) (hok : st.ok = true) (hk : c.submitted k) :
    (c.completeOperation st).ops k = none := by
  rw [Control.completeOperation_of_ok hok (fun j hj => h.one j k hj hk) hk]
  exact Control.destruct_ops_self

theorem ok_of_mem (hok : lineOk ∈ ls) : (s.applyLines scan ls).ok = true := by
  simp [Status.ok_applyLines, hok]

theorem constructed_of_complete (hk : (c.completeOperation st).constructed k) : c.constructed k := by
  obtain ⟨op, hop⟩ := Control.constructed_iff.mp hk
  unfold Control.completeOperation at hop
  split at hop
  · split at hop
    · exact Control.constructed_iff.mpr ⟨op, hop⟩
    · rename_i j hj
      by_cases hkj : k = j
      · subst hkj; simp at hop
      · exact Control.constructed_iff.mpr ⟨op, by simpa [hkj] using hop⟩
  · exact Control.constructed_iff.mpr ⟨op, hop⟩

/-- The lines of a batch, and the completion they allow. -/
theorem ordered_lines (h : Coherent s c) :
    Ordered (s.applyLines scan ls) (c.completeOperation (s.applyLines scan ls)) := by
  set st := s.applyLines scan ls with hst
  have hren : Control.Renews c (c.completeOperation st) := Control.renews_completeOperation
  have hgone : ∀ {k}, lineOk ∈ ls → c.submitted k → ¬ (c.completeOperation st).constructed k := by
    intro k hok hk hc
    obtain ⟨op, hop⟩ := Control.constructed_iff.mp hc
    rw [h.retired (ok_of_mem hok) hk] at hop
    cases hop
  refine ⟨?_, ?_, h.fresh.applyLines, ?_, ?_, ?_, ?_, ?_⟩
  case refine_1 =>
    exact fun j k hj hk => h.one j k (hren.submitted hj).2 (hren.submitted hk).2
  case refine_2 =>
    intro cmd k r hp hop
    have hs : s.pendingCommand = some cmd := by
      rw [hst, Status.pendingCommand_applyLines] at hp
      split at hp
      · cases hp
      · exact hp
    have := (hren.submitted (Control.submitted_iff.mpr ⟨_, hop, rfl⟩)).1
    exact h.owner cmd k r hs (this ▸ hop)
  case refine_3 =>
    -- the echo gets disabled by the `OK` that retires `ATE0`
    intro hc
    have hc' := constructed_of_complete hc
    by_contra he
    rcases Status.echoDisabled_of_applyLines (by simpa using he) with he | ⟨hok, hp⟩
    · simp [h.echo hc'] at he
    · obtain ⟨k, r, hk, hr⟩ := h.owner_kind hp hc'
      rcases r.kind_of_disableEcho hr with rfl | rfl
      · have := h.ring (Control.constructed_of_submitted hk)
        simp [h.echo hc'] at this
      · exact hgone hok hk hc
  case refine_4 =>
    intro hs hp
    have hs' := (hren.submitted hs).2
    have hp' : s.pendingCommand ≠ none := by
      intro hn
      simp [hst, Status.pendingCommand_applyLines, hn] at hp
    rcases Status.atOk_applyLines (h.echoProbed hs' hp') with ha | ⟨hok, -⟩
    · exact ha
    · exact absurd (Control.constructed_of_submitted hs) (hgone hok hs')
  case refine_5 =>
    -- a confirmed reboot retires the operation that asked for it
    intro hc
    have hc' := constructed_of_complete hc
    rcases Status.echoDisabled_applyLines (h.ring hc') with he | ⟨hok, hp⟩
    · exact he
    · obtain ⟨k, r, hk, hr⟩ := h.owner_kind hp hc'
      rcases r.kind_of_reboot hr with rfl | rfl
      · exact absurd hc (hgone hok hk)
      · exact absurd hc' (h.rebootLast hk)
  case refine_6 =>
    exact fun hs hc => h.rebootLast (hren.submitted hs).2 (constructed_of_complete hc)
  case refine_7 =>
    exact fun hs hc => h.rebootAlone (constructed_of_complete hs) (constructed_of_complete hc)

end Coherent

-- ---------------------------------------------------------------------------
-- One pass
-- ---------------------------------------------------------------------------

/-- What holds after a pass: the startup operations fit the status. -/
structure Passed (st : Status) (c : Control) : Prop extends Ordered st c where
  probe : c.constructed .checkReady → st.atOk = false
  probeFirst : c.constructed .disableEcho → st.atOk = false → c.constructed .checkReady

section Pass

variable {st : Status} {c : Control} {config : Config}

/-- An operation conditional on readiness changes nothing else. -/
theorem Ordered.conditional (h : Ordered st c) :
    Ordered st (c.conditional (!st.atOk) .checkReady) := by
  have hren : Control.Renews c (c.conditional (!st.atOk) .checkReady) := Control.renews_conditional _
  have hk : ∀ {k}, k ≠ .checkReady →
      (c.conditional (!st.atOk) .checkReady).constructed k = c.constructed k :=
    fun hk => Control.constructed_congr (Control.conditional_ops_of_ne hk)
  refine ⟨fun j k hj hk => h.one j k (hren.submitted hj).2 (hren.submitted hk).2, ?_, h.fresh,
    ?_, fun hs => h.echoProbed (hren.submitted hs).2, ?_, ?_, ?_⟩
  · intro cmd k r hp hop
    have := (hren.submitted (Control.submitted_iff.mpr ⟨_, hop, rfl⟩)).1
    exact h.owner cmd k r hp (this ▸ hop)
  · rw [hk (by decide)]; exact h.echo
  · rw [hk (by decide)]; exact h.ring
  · rw [hk (by decide)]; exact fun hs => h.rebootLast (hren.submitted hs).2
  · rw [hk (by decide), hk (by decide)]; exact h.rebootAlone

theorem Ordered.applyConfigNode (h : Ordered st c) (hprobe : c.constructed .checkReady = !st.atOk) :
    Passed st (c.applyConfigNode st config) := by
  have hren : Control.Renews c (c.applyConfigNode st config) := Control.renews_applyConfigNode config
  have hone : ∀ j k, (c.applyConfigNode st config).submitted j →
      (c.applyConfigNode st config).submitted k → j = k :=
    fun j k hj hk => h.one j k (hren.submitted hj).2 (hren.submitted hk).2
  have howner : ∀ cmd k (r : Request k), st.pendingCommand = some cmd →
      (c.applyConfigNode st config).ops k = some ⟨r, .submitted⟩ → r.command = cmd := by
    intro cmd k r hp hop
    have := (hren.submitted (Control.submitted_iff.mpr ⟨_, hop, rfl⟩)).1
    exact h.owner cmd k r hp (this ▸ hop)
  have hprobed : (c.applyConfigNode st config).submitted .disableEcho →
      st.pendingCommand ≠ none → st.atOk = true :=
    fun hs => h.echoProbed (hren.submitted hs).2
  rcases Control.applyConfigNode_cases st config c with
    ⟨-, he⟩ | ⟨hreboot, -, hecho, he⟩ | ⟨hreached, he⟩
  · -- the guards stop the pass
    rw [he]
    exact { h with
      probe := fun hc => by simpa [hprobe] using hc
      probeFirst := fun _ ha => by simp [hprobe, ha] }
  · -- the echo is still to be disabled
    have hk : ∀ {j}, j ≠ .disableEcho →
        (c.applyConfigNode st config).constructed j = c.constructed j := by
      intro j hj
      rw [he]
      exact Control.constructed_congr (Control.conditional_ops_of_ne hj)
    refine ⟨⟨hone, howner, h.fresh, fun _ => hecho, hprobed, ?_, ?_, ?_⟩, ?_, ?_⟩
    · rw [hk (by decide)]; exact h.ring
    · rw [hk (by decide)]; exact fun hs => h.rebootLast (hren.submitted hs).2
    · rw [hk (by decide), hreboot]; exact fun h => by cases h
    · rw [hk (by decide), hprobe]; exact fun ha => by simpa using ha
    · rw [hk (j := .checkReady) (by decide), hprobe]; exact fun _ ha => by simp [ha]
  · -- the settings are reached with the echo disabled
    simp only [Control.settingsReached, Bool.and_eq_true, Bool.not_eq_true'] at hreached
    have hstart : ∀ {k}, k = .checkReady ∨ k = .disableEcho →
        (c.applyConfigNode st config).ops k
          = if (c.destruct .disableEcho).rebootDue st then none else (c.destruct .disableEcho).ops k :=
      fun hk => by rw [he]; exact Control.applySettings_ops_startup config hk
    have hnoecho : (c.applyConfigNode st config).constructed .disableEcho = false := by
      simp [Control.constructed, hstart (.inr rfl)]
    refine ⟨⟨hone, howner, h.fresh, ?_, hprobed, fun _ => hreached.2, ?_, ?_⟩, ?_, ?_⟩
    · simp [hnoecho]
    · intro hs
      have := Control.constructed_of_submitted (hren.submitted hs).2
      simp [hreached.1.1] at this
    · simp [hnoecho]
    · intro hc
      obtain ⟨op, hop⟩ := Control.constructed_iff.mp hc
      rw [hstart (.inl rfl)] at hop
      split at hop
      · cases hop
      · rw [Control.destruct_ops_of_ne (by decide)] at hop
        simpa [hprobe] using Control.constructed_iff.mpr ⟨op, hop⟩
    · simp [hnoecho]

/-- What one pass makes of status and operations in order. -/
theorem Ordered.pass (h : Ordered st (c.completeOperation st)) : Passed st (c.pass st config) :=
  h.conditional.applyConfigNode Control.conditional_constructed

/-- While no `OK` arrives, a pass gives up a submitted operation only where the
settings drop it. -/
theorem Coherent.submitted_pass {s : Status} {ls : List Text} (h : Coherent s c)
    (hp : s.pendingCommand ≠ none) (hno : lineOk ∉ ls) :
    let st := s.applyLines scan ls
    (c.pass st config).submitted k =
      (c.submitted k && !(c.settingsReached st && c.drops st config k)) := by
  intro st
  have hok : st.ok = false := by simp [st, Status.ok_applyLines, hno, (h.fresh hp).1]
  have hprobe : c.submitted .checkReady → st.atOk = false := by
    intro hs
    by_contra ha
    rcases Status.atOk_of_applyLines (by simpa using ha) with ha | ⟨hok, -⟩
    · simp [h.probe (Control.constructed_of_submitted hs)] at ha
    · exact hno hok
  have hecho : c.submitted .disableEcho → st.atOk = true ∧ st.echoDisabled = false := by
    intro hs
    refine ⟨(Status.atOk_applyLines (h.echoProbed hs hp)).resolve_right fun hc => hno hc.1, ?_⟩
    by_contra he
    rcases Status.echoDisabled_of_applyLines (by simpa using he) with he | ⟨hok, -⟩
    · simp [h.echo (Control.constructed_of_submitted hs)] at he
    · exact hno hok
  have hready : ∀ {j}, (c.conditional (!st.atOk) .checkReady).submitted j = c.submitted j := by
    intro j
    rw [Control.submitted_conditional]
    by_cases hj : j = .checkReady
    · subst hj; cases hs : c.submitted .checkReady <;> simp [hprobe, hs]
    · simp [hj]
  have hreboot : (c.conditional (!st.atOk) .checkReady).constructed .reboot = c.constructed .reboot :=
    Control.constructed_congr (Control.conditional_ops_of_ne (by decide))
  rw [Control.pass, Control.completeOperation_of_not_ok hok]
  rcases Control.applyConfigNode_cases st config (c.conditional (!st.atOk) .checkReady) with
    ⟨hstop, he⟩ | ⟨-, -, hecho', he⟩ | ⟨hreached, he⟩
  · have : c.settingsReached st = false := by
      rcases hstop with hstop | hstop
      · simp [Control.settingsReached, hreboot ▸ hstop]
      · simp [Control.settingsReached, hstop]
    simp only [he, hready, this, Bool.false_and, Bool.not_false, Bool.and_true]
  · have : c.settingsReached st = false := by simp [Control.settingsReached, hecho']
    simp only [he, Control.submitted_conditional, hready, this, Bool.false_and, Bool.not_false,
      Bool.and_true]
    by_cases hk : k = .disableEcho
    · subst hk; cases hs : c.submitted .disableEcho <;> simp [hecho, hs]
    · simp [hk]
  · have hthere : c.settingsReached st = true := by
      simpa [Control.settingsReached, hreboot] using hreached
    have hdrops : ((c.conditional (!st.atOk) .checkReady).destruct .disableEcho).drops st config k
        = c.drops st config k :=
      Control.drops_congr ((Control.constructed_congr (Control.destruct_ops_of_ne (by decide))).trans hreboot)
        Control.conditional_currentPin Control.conditional_currentRingCount
    simp only [he, Control.submitted_applySettings, Control.submitted_destruct, hready, hdrops, hthere,
      Bool.true_and]
    by_cases hk : k = .disableEcho
    · subst hk
      have : c.submitted .disableEcho = false := by
        by_contra hs
        have := (hecho (by simpa using hs)).2
        simp [Control.settingsReached, this] at hthere
      simp [this]
    · simp [hk]

end Pass

-- ---------------------------------------------------------------------------
-- The calls of the driver
-- ---------------------------------------------------------------------------

namespace Driver

variable {d : Driver maxLineLen} {config : Config} {responses : List Text}

theorem apply_submission : (d.apply scan config responses).2 =
    (d.control.applyConfig (d.received scan responses) config).2 := rfl

theorem apply_control : (d.apply scan config responses).1.control =
    (d.control.applyConfig (d.received scan responses) config).1 := rfl

theorem apply_status : (d.apply scan config responses).1.status =
    match (d.apply scan config responses).2 with
    | none => d.received scan responses
    | some s => (d.received scan responses).commandSubmitted s.command := rfl

/-- Status and operations of the driver agree. -/
def Coherent (d : Driver maxLineLen) : Prop := Modem.Coherent d.status d.control

theorem Coherent.passed (scan : Scanner) (h : d.Coherent) (config : Config) (responses : List Text) :
    Passed (d.received scan responses) (d.control.pass (d.received scan responses) config) :=
  (Modem.Coherent.ordered_lines h).pass

/-- Either the call submits nothing, because an operation is in flight or there
is none, or it submits the first operation with none in flight. -/
theorem apply_cases (scan : Scanner) (d : Driver maxLineLen) (config : Config) (responses : List Text) :
    let st := d.received scan responses
    let c := d.control.pass st config
    (d.apply scan config responses).2 = none ∧ (d.apply scan config responses).1.status = st ∧
      (d.apply scan config responses).1.control = c ∧
      ((∃ j, c.submitted j) ∨ ∀ j, c.constructed j = false)
    ∨ ∃ k, ∃ r : Request k, (d.apply scan config responses).2 = some ⟨k, r⟩ ∧
      (d.apply scan config responses).1.status = st.commandSubmitted r.command ∧
      (d.apply scan config responses).1.control =
        { c with ops := Function.update c.ops k (some { request := r, state := .submitted }) } ∧
      (∀ j, c.submitted j = false) ∧ c.ops k = some { request := r } ∧
      ∀ j, j.before k → c.constructed j = false := by
  intro st c
  rw [apply_status, apply_control, apply_submission]
  rcases Control.applyConfig_cases st config d.control with
    ⟨hj, he⟩ | ⟨hnone, he⟩ | ⟨k, r, hidle, hop, hbefore, he⟩
  · exact .inl (by simp [st, c, he, hj])
  · exact .inl (by simp [st, c, he]; exact .inr hnone)
  · exact .inr ⟨k, r, by simp [st, he], by simp [st, he, Control.Submission.command],
      by simp [st, c, he], hidle, hop, hbefore⟩

theorem obs_apply (config : Config) (responses : List Text) :
    (system scan maxLineLen).obs d (.apply config responses) =
      lineObs scan d.status (d.linesOf responses) ++
        .configured config (d.received scan responses)
          (d.control.pass (d.received scan responses) config) ::
        (d.apply scan config responses).2.toList.map
          (.submitted config (d.received scan responses)) := rfl

theorem coherent_init (settings : List (Qcfg.Name × Qcfg.Value)) :
    (init maxLineLen settings).Coherent where
  one := by simp [init]
  owner := by simp [init]
  fresh := by simp [init, Status.Fresh]
  echo := by simp [init]
  echoProbed := by simp [init]
  ring := by simp [init]
  rebootLast := by simp [init]
  rebootAlone := by simp [init]
  probe := by simp [init]
  busy := by simp [init]

/-- A submission puts the first operation in flight. -/
theorem coherent_submitted {st : Status} {c : Control} {r : Request k} (h : Passed st c)
    (hidle : ∀ j, c.submitted j = false) (hop : c.ops k = some { request := r })
    (hbefore : ∀ j, j.before k → c.constructed j = false) :
    Modem.Coherent (st.commandSubmitted r.command)
      { c with ops := Function.update c.ops k (some { request := r, state := .submitted }) } := by
  set c' : Control :=
    { c with ops := Function.update c.ops k (some { request := r, state := .submitted }) } with hc'
  have hself : c'.ops k = some ⟨r, .submitted⟩ := by simp [hc']
  have hne : ∀ {j}, j ≠ k → c'.ops j = c.ops j := fun hj => by simp [hc', hj]
  have hcons : ∀ j, c'.constructed j = c.constructed j := by
    intro j
    by_cases hj : j = k
    · subst hj; simp [Control.constructed, hself, hop]
    · exact Control.constructed_congr (hne hj)
  have honly : ∀ j, c'.submitted j → j = k := by
    intro j hs
    by_contra hj
    have : c'.submitted j = c.submitted j := by
      simp [Control.submitted, Ops.isSubmitted, hne hj]
    simp [this, hidle j] at hs
  have hpend : (st.commandSubmitted r.command).pendingCommand = some r.command := by
    unfold Status.commandSubmitted; dsimp only; split <;> rfl
  have hat : (st.commandSubmitted r.command).atOk = st.atOk := by
    unfold Status.commandSubmitted; dsimp only; split <;> rfl
  have hecho : (st.commandSubmitted r.command).echoDisabled = st.echoDisabled := by
    unfold Status.commandSubmitted; dsimp only; split <;> rfl
  refine ⟨⟨?_, ?_, Status.fresh_commandSubmitted, ?_, ?_, ?_, ?_, ?_⟩, ?_, ?_⟩
  case refine_1 => exact fun i j hi hj => (honly i hi).trans (honly j hj).symm
  case refine_2 =>
    intro cmd j r' hp hop'
    obtain rfl := honly j (Control.submitted_iff.mpr ⟨_, hop', rfl⟩)
    rw [hself] at hop'
    cases hop'
    exact Option.some.inj (hpend.symm.trans hp)
  case refine_3 => rw [hcons, hecho]; exact h.echo
  case refine_4 =>
    -- the probe goes first
    intro hs _
    obtain rfl := honly _ hs
    have hprobe := hbefore .checkReady (by decide)
    have hc : c.constructed .disableEcho := Control.constructed_iff.mpr ⟨_, hop⟩
    rw [hat]
    by_contra ha
    simp [h.probeFirst hc (by simpa using ha)] at hprobe
  case refine_5 => rw [hcons, hecho]; exact h.ring
  case refine_6 =>
    intro hs
    obtain rfl := honly _ hs
    rw [hcons, hbefore .ring (by decide)]
    exact Bool.false_ne_true
  case refine_7 => rw [hcons, hcons]; exact h.rebootAlone
  case refine_8 => rw [hcons, hat]; exact h.probe
  case refine_9 => exact fun _ => .inl ⟨k, Control.submitted_iff.mpr ⟨_, hself, rfl⟩⟩

theorem Coherent.apply (h : d.Coherent) (config : Config) (responses : List Text) :
    (d.apply scan config responses).1.Coherent := by
  have hp := h.passed scan config responses
  rcases apply_cases scan d config responses with
    ⟨-, hst, hc, hj⟩ | ⟨k, r, -, hst, hc, hidle, hop, hbefore⟩
  · unfold Coherent
    rw [hst, hc]
    exact ⟨hp.toOrdered, hp.probe, fun _ => hj.imp_right fun h k => by simp [h k]⟩
  · unfold Coherent
    rw [hst, hc]
    exact coherent_submitted hp hidle hop hbefore

theorem Coherent.invalidateCallList (h : d.Coherent) : d.invalidateCallList.Coherent :=
  { h with }

theorem Coherent.cancelCommand (h : d.Coherent) : d.cancelCommand.Coherent := by
  unfold Driver.cancelCommand
  cases hp : d.status.pendingCommand with
  | none => exact { h with echoProbed := fun _ hn => absurd hp hn, probe := fun _ => rfl }
  | some cmd =>
    have hs : ∀ j, d.control.cancelCommand.submitted j = false := fun j => Control.submitted_cancelCommand
    have hc : ∀ {j}, d.control.cancelCommand.constructed j → d.control.constructed j := by
      intro j hj
      rw [Control.constructed_cancelCommand, Bool.and_eq_true] at hj
      exact hj.1
    exact {
      one := by simp [hs]
      owner := by simp [Status.commandCanceled, Status.resetCommand, Status.statusChanged]
      fresh := by simp [Status.Fresh, Status.commandCanceled, Status.resetCommand, Status.statusChanged]
      echo := fun hj => h.echo (hc hj)
      echoProbed := by simp [hs]
      ring := fun hj => h.ring (hc hj)
      rebootLast := by simp [hs]
      rebootAlone := fun hj hk => h.rebootAlone (hc hj) (hc hk)
      probe := fun _ => rfl
      busy := by simp [Status.commandCanceled, Status.resetCommand, Status.statusChanged] }

theorem Coherent.next (h : d.Coherent) (e : Event) : ((system scan maxLineLen).next d e).Coherent := by
  cases e with
  | apply config responses => exact h.apply config responses
  | invalidateCallList => exact h.invalidateCallList
  | cancelCommand => exact h.cancelCommand

/-- On every run status and operations agree. -/
theorem coherent_run (settings : List (Qcfg.Name × Qcfg.Value)) (es : List Event) :
    ((system scan maxLineLen).run (init maxLineLen settings) es).Coherent :=
  System.run_invariant (fun _ e h _ => h.next e) (coherent_init settings)
    (System.along_of_forall fun _ _ => trivial)

end Driver

end Allwinner.Modem
