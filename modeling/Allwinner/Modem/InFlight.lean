import Allwinner.Modem.Coherence

/-!
# Commands in flight

The status drops the pending command at any final response; the operations are
retired by `OK`, or by the few stages of a pass that look for a failure. The
two stay in step exactly as long as every failure is one of those.
-/

namespace Allwinner.Modem.Driver

open Library (System)

variable {scan : Scanner} {maxLineLen : Nat} {d : Driver maxLineLen}

-- ---------------------------------------------------------------------------
-- A response is expected
-- ---------------------------------------------------------------------------

/-- Every submitted operation has a command that still waits for its response. -/
def ResponseExpected (d : Driver maxLineLen) : Prop :=
  ∀ k, d.control.submitted k → d.responseOutstanding

/-- A final response retires the operation in flight: it is `OK`, or the call
reaches the settings and they drop an operation of this kind. -/
def FinalRetires (scan : Scanner) (d : Driver maxLineLen) : Event → Prop
  | .apply config responses =>
    let lines := d.linesOf responses
    let st := d.received scan responses
    lines.any Status.isFinal → lineOk ∉ lines → ∀ k, d.control.submitted k →
      d.control.settingsReached st ∧ d.control.drops st config k
  | .invalidateCallList => True
  | .cancelCommand => True

theorem responseExpected_init (settings : List (Qcfg.Name × Qcfg.Value)) :
    (init maxLineLen settings).ResponseExpected := by
  intro k hk
  cases hk

/-- An `OK` leaves nothing in flight that was submitted before. -/
theorem not_submitted_of_ok (h : d.Coherent) (hok : lineOk ∈ d.linesOf responses) :
    (d.control.pass (d.received scan responses) config).submitted k = false := by
  by_contra hs
  have hs : (d.control.completeOperation (d.received scan responses)).submitted k :=
    ((Control.renews_completed config).submitted (by simpa using hs)).2
  have hk := (Control.renews_completeOperation.submitted hs).2
  have hst : (d.received scan responses).ok = true := Modem.Coherent.ok_of_mem hok
  obtain ⟨op, hop, -⟩ := Control.submitted_iff.mp hs
  rw [Modem.Coherent.retired h hst hk] at hop
  cases hop

theorem responseExpected_apply (h : d.Coherent) (hd : d.ResponseExpected) :
    (d.apply scan config responses).1.ResponseExpected ↔ d.FinalRetires scan (.apply config responses) := by
  have hpend : (d.received scan responses).pendingCommand =
      if (d.linesOf responses).any Status.isFinal then none else d.status.pendingCommand :=
    Status.pendingCommand_applyLines
  have hpass : ∀ {k}, d.control.submitted k → lineOk ∉ d.linesOf responses →
      (d.control.pass (d.received scan responses) config).submitted k =
        (d.control.submitted k && !(d.control.settingsReached (d.received scan responses) &&
          d.control.drops (d.received scan responses) config k)) :=
    fun hk hno => Modem.Coherent.submitted_pass h (Option.isSome_iff_ne_none.mp (hd _ hk)) hno
  constructor
  · intro hafter hfinal hno k hk
    by_contra hnot
    have hk' : (d.control.pass (d.received scan responses) config).submitted k = true := by
      rw [← Bool.and_eq_true, Bool.not_eq_true] at hnot
      rw [hpass hk hno, hk, hnot]
      rfl
    rcases apply_cases scan d config responses with ⟨-, hs, hc, -⟩ | ⟨j, r, -, -, -, hidle, -⟩
    · have := hafter k (by rw [hc]; exact hk')
      rw [responseOutstanding, hs, hpend, if_pos hfinal] at this
      cases this
    · simp [hidle k] at hk'
  · intro hret k hk
    rcases apply_cases scan d config responses with ⟨-, hs, hc, -⟩ | ⟨j, r, -, hs, -, -⟩
    · rw [hc] at hk
      have hk' := ((Control.renews_pass config).submitted hk).2
      rw [responseOutstanding, hs, hpend]
      split
      · rename_i hfinal
        have hno : lineOk ∉ d.linesOf responses := by
          intro hok
          simp [not_submitted_of_ok h hok] at hk
        obtain ⟨hreached, hdrops⟩ := hret hfinal hno k hk'
        rw [hpass hk' hno] at hk
        simp [hreached, hdrops] at hk
      · exact hd k hk'
    · rw [responseOutstanding, hs]
      unfold Status.commandSubmitted
      dsimp only
      split <;> rfl

theorem responseExpected_next (h : d.Coherent) (hd : d.ResponseExpected) (e : Event) :
    ((system scan maxLineLen).next d e).ResponseExpected ↔ d.FinalRetires scan e := by
  cases e with
  | apply config responses => exact responseExpected_apply h hd
  | invalidateCallList => exact iff_of_true hd trivial
  | cancelCommand =>
    refine iff_of_true (fun k hk => ?_) trivial
    change d.cancelCommand.control.submitted k = true at hk
    unfold cancelCommand at hk
    cases hp : d.status.pendingCommand with
    | none =>
      rw [hp] at hk
      have := hd k hk
      simp [responseOutstanding, hp] at this
    | some cmd => simp [hp] at hk

/-- In every state of a run each submitted operation has its command pending,
exactly if every failure met on the way retires the operation in flight. -/
theorem responseExpected_iff (scan : Scanner) (maxLineLen : Nat)
    (settings : List (Qcfg.Name × Qcfg.Value)) (es : List Event) :
    (∀ pre, pre <+: es →
        ((system scan maxLineLen).run (init maxLineLen settings) pre).ResponseExpected) ↔
      (system scan maxLineLen).Along (FinalRetires scan) (init maxLineLen settings) es :=
  System.throughout_iff_along (fun _ e h _ _ => h.next e) (fun _ e h hd => responseExpected_next h hd e)
    (coherent_init settings) (responseExpected_init settings)

/-- The modem refuses `ATE0`: the operation stays submitted with nothing pending. -/
theorem echo_refused :
    ¬ ((system (fun _ => []) 64).run (init 64 [])
        [.apply {} [], .apply {} ["OK\r\n".toList], .apply {} ["ERROR\r\n".toList]]).ResponseExpected := by
  intro h
  exact absurd (h .disableEcho (by decide)) (by decide)

-- ---------------------------------------------------------------------------
-- One outstanding command
-- ---------------------------------------------------------------------------

/-- The modem lists a voice call in response to the pending `AT+CLCC`. -/
def ListsCall (scan : Scanner) : Obs → Prop
  | .line l pending =>
    (Call.ofLine scan l).isSome ∧ Status.isPending pending atRequestCallList = true
  | _ => False

def IsSubmission : Obs → Prop
  | .submitted _ _ _ => True
  | _ => False

/-- `AT+CLCC` is outstanding, and the modem listed a call since it was submitted. -/
def CallListed (scan : Scanner) (h : List Obs) (s : Status) : Prop :=
  Status.isPending s.pendingCommand atRequestCallList = true ∧
    Library.Open (ListsCall scan) IsSubmission h

/-- What the status knows of the call list while `AT+CLCC` is outstanding, it
has from the calls listed since. -/
def ListTracked (scan : Scanner) (h : List Obs) (s : Status) : Prop :=
  Status.isPending s.pendingCommand atRequestCallList = true →
    s.clccUpToDate = true ∨ s.currentCall.isSome = true → CallListed scan h s

theorem CallListed.line (h : CallListed scan obs s)
    (hp : (s.applyLine scan l).pendingCommand ≠ none) :
    CallListed scan (obs ++ [.line l s.pendingCommand]) (s.applyLine scan l) := by
  rw [Status.pendingCommand_applyLine] at hp
  have hl : Status.isFinal l = false := by
    by_contra hf
    simp [hf] at hp
  exact ⟨by simpa [Status.pendingCommand_applyLine, hl] using h.1,
    Library.open_snoc.mpr (.inr ⟨h.2, id⟩)⟩

theorem ListTracked.line (h : ListTracked scan obs s) :
    ListTracked scan (obs ++ [.line l s.pendingCommand]) (s.applyLine scan l) := by
  intro hp hknown
  obtain ⟨hpend, hl⟩ := Status.isPending_applyLine hp
  refine ⟨hp, Library.open_snoc.mpr ?_⟩
  have hne : l ≠ lineOk := by rintro rfl; cases hl
  have hc : ¬ s.ConfirmsReboot l := fun hc => hne hc.1
  have hi : ¬ s.InvalidatesClcc l := fun hi => hne hi.1
  have hcall : (s.callAfter scan l).isSome = true →
      (Call.ofLine scan l).isSome = true ∨ s.currentCall.isSome = true := by
    unfold Status.callAfter
    split
    · simp
    · simp [Option.isSome_or]
  have hsource : (Call.ofLine scan l).isSome = true ∨
      s.clccUpToDate = true ∨ s.currentCall.isSome = true := by
    rw [Status.clccUpToDate_applyLine, Status.currentCall_applyLine] at hknown
    simp only [hc, hi, or_self, if_false, hne, decide_false, Bool.false_and, Bool.false_or,
      Bool.or_eq_true] at hknown
    rcases hknown with (hk | hk) | hk
    · exact (hcall hk).imp_right .inr
    · exact .inr (.inl (by split at hk; cases hk; exact hk))
    · exact (hcall hk).imp_right .inr
  rcases hsource with hv | hk
  · exact .inl ⟨hv, hpend⟩
  · exact .inr ⟨(h hpend hk).2, id⟩

/-- The log agrees with status and operations about the outstanding command: it
is the command of an operation in flight, or `AT+CLCC` with a call listed. -/
structure Tracked (scan : Scanner) (h : List Obs) (d : Driver maxLineLen) : Prop where
  coherent : d.Coherent
  listed : ListTracked scan h d.status
  owned : d.status.pendingCommand ≠ none →
    (∃ k, d.control.submitted k) ∨ CallListed scan h d.status

theorem Tracked.lines (h : Tracked scan obs d) (responses : List Text) :
    let st := d.received scan responses
    let obs' := obs ++ lineObs scan d.status (d.linesOf responses)
    ListTracked scan obs' st ∧
      (st.pendingCommand ≠ none → (∃ k, d.control.submitted k) ∨ CallListed scan obs' st) := by
  refine lineObs_invariant (I := fun obs s => ListTracked scan obs s ∧
    (s.pendingCommand ≠ none → (∃ k, d.control.submitted k) ∨ CallListed scan obs s)) ?_
    ⟨h.listed, h.owned⟩
  rintro obs s l ⟨hlisted, howned⟩
  refine ⟨hlisted.line, fun hp => ?_⟩
  have hs : s.pendingCommand ≠ none := by
    intro hn
    simp [Status.pendingCommand_applyLine, hn] at hp
  exact (howned hs).imp_right fun h => h.line hp

/-- A reboot that is due cancels all operations, also one in flight. -/
def CancelsForReboot (st : Status) (c : Control) : Prop := (∃ k, c.submitted k) ∧ c.rebootDue st

/-- A changed PIN replaces the one in flight. -/
def ReplacesPin (st : Status) (config : Config) (c : Control) : Prop :=
  c.submitted .setPin ∧ c.pinChanged st config.pinValue

/-- Another ring replaces the one in flight. -/
def ReplacesRing (st : Status) (config : Config) (c : Control) : Prop :=
  c.submitted .ring ∧ config.ring.isSome ∧ c.currentRingCount ≠ st.ringCount

/-- The settings give up an operation in flight for something new. -/
def Overtakes (st : Status) (config : Config) (c : Control) : Prop :=
  c.settingsReached st ∧ (CancelsForReboot st c ∨ ReplacesPin st config c ∨ ReplacesRing st config c)

/-- While the command is outstanding, the settings drop its operation only for
something new, or because the call list got known. -/
theorem overtakes_of_drops {st : Status} {c : Control} (hfresh : st.Fresh)
    (hp : st.pendingCommand ≠ none) (hs : c.submitted k) (hreached : c.settingsReached st)
    (hd : c.drops st config k) :
    Overtakes st config c ∨ k = .requestCallList ∧ st.clccUpToDate = true := by
  obtain ⟨-, herr, hcme⟩ := hfresh hp
  simp only [Control.drops, Bool.or_eq_true] at hd
  rcases hd with hd | hd
  · exact .inl ⟨hreached, .inl ⟨⟨k, hs⟩, hd⟩⟩
  · cases k with
    | queryQcfg => simp [herr] at hd
    | powerDown => simp [herr] at hd
    | requestPinState => simp [hcme] at hd
    | setPin => exact .inl ⟨hreached, .inr (.inl ⟨hs, by simpa [hcme] using hd⟩)⟩
    | ring => exact .inl ⟨hreached, .inr (.inr ⟨hs, by simpa using hd⟩)⟩
    | requestCallList => exact .inr ⟨rfl, by simp_all⟩
    | _ => cases hd

/-- Whatever overtakes the command has an operation of its own. -/
theorem constructed_of_overtakes {st : Status} {c : Control} (hfresh : st.Fresh)
    (hp : st.pendingCommand ≠ none) (h : Overtakes st config c) :
    ∃ k, (c.pass st config).constructed k := by
  obtain ⟨hok, -, hcme⟩ := hfresh hp
  obtain ⟨hreached, hnew⟩ := h
  rw [← Control.completeOperation_of_not_ok (c := c) hok] at hreached
  obtain ⟨c', hpass, htouch⟩ := Control.pass_of_reached config hreached
  rw [Control.completeOperation_of_not_ok hok] at htouch
  have hdue : c'.rebootDue st = c.rebootDue st := by
    rw [Control.rebootDue, Control.constructed_congr (htouch.ops .reboot (by decide)), Control.rebootDue]
  rw [hpass]
  cases hd : c'.rebootDue st with
  | true =>
    exact ⟨.reboot, Control.constructed_iff.mpr ⟨_, Control.applySettings_reboot config hd⟩⟩
  | false =>
    rcases hnew with ⟨-, hnew⟩ | ⟨-, hnew⟩ | ⟨-, hring, hcount⟩
    · simp [← hdue, hd] at hnew
    · have hchanged : c'.pinChanged st config.pinValue = true := by
        simpa [Control.pinChanged, htouch.currentPin] using hnew
      exact ⟨.setPin, Control.constructed_iff.mpr
        ⟨_, Control.applySettings_setPin config hd hcme hchanged⟩⟩
    · exact ⟨.ring, Control.applySettings_ring config hring (by rwa [htouch.currentRingCount])⟩

/-- An operation that leaves the command outstanding when it goes, goes for
something new, or as the request of a call list that got known. -/
theorem overtaken (h : d.Coherent) (hk : d.control.submitted k)
    (hp : (d.received scan responses).pendingCommand ≠ none)
    (hgone : ∀ j, (d.control.pass (d.received scan responses) config).submitted j = false) :
    Overtakes (d.received scan responses) config d.control ∨
      k = .requestCallList ∧ (d.received scan responses).clccUpToDate = true := by
  have hpend : (d.received scan responses).pendingCommand =
      if (d.linesOf responses).any Status.isFinal then none else d.status.pendingCommand :=
    Status.pendingCommand_applyLines
  have hd : d.status.pendingCommand ≠ none := by
    intro hn
    simp [hpend, hn] at hp
  have hno : lineOk ∉ d.linesOf responses := by
    intro hok
    have : (d.linesOf responses).any Status.isFinal = true :=
      List.any_eq_true.mpr ⟨lineOk, hok, Status.isFinal_ok⟩
    simp [hpend, this] at hp
  have hpass : (d.control.pass (d.received scan responses) config).submitted k =
      (d.control.submitted k && !(d.control.settingsReached (d.received scan responses) &&
        d.control.drops (d.received scan responses) config k)) :=
    Modem.Coherent.submitted_pass h hd hno
  rw [hgone k, hk] at hpass
  have hdrop : d.control.settingsReached (d.received scan responses) = true ∧
      d.control.drops (d.received scan responses) config k = true := by
    simpa using hpass
  exact overtakes_of_drops h.fresh.applyLines hp hk hdrop.1 hdrop.2

/-- The request of the call list in flight asks for the list that is tracked. -/
theorem Tracked.listed_of_request (h : Tracked scan obs d)
    (hk : d.control.submitted .requestCallList)
    (hp : (d.received scan responses).pendingCommand ≠ none)
    (hclcc : (d.received scan responses).clccUpToDate = true) :
    CallListed scan (obs ++ lineObs scan d.status (d.linesOf responses)) (d.received scan responses) := by
  have hpend : (d.received scan responses).pendingCommand =
      if (d.linesOf responses).any Status.isFinal then none else d.status.pendingCommand :=
    Status.pendingCommand_applyLines
  refine (h.lines responses).1 ?_ (.inl hclcc)
  obtain ⟨cmd, hcmd⟩ := Option.ne_none_iff_exists'.mp hp
  have hd : d.status.pendingCommand = some cmd := by
    rw [hcmd] at hpend
    split at hpend
    · cases hpend
    · exact hpend.symm
  obtain ⟨⟨r, state⟩, hop, rfl⟩ := Control.submitted_iff.mp hk
  have := h.coherent.owner cmd _ r hd hop
  cases r
  rw [hcmd, ← this]
  decide

theorem CallListed.configured (h : CallListed scan obs s) :
    CallListed scan (obs ++ [.configured config st c]) s :=
  ⟨h.1, Library.open_snoc.mpr (.inr ⟨h.2, id⟩)⟩

theorem Tracked.apply (h : Tracked scan obs d) (config : Config) (responses : List Text) :
    Tracked scan (obs ++ (system scan maxLineLen).obs d (.apply config responses))
      (d.apply scan config responses).1 := by
  obtain ⟨hlisted, howned⟩ := h.lines responses
  rw [obs_apply]
  rcases apply_cases scan d config responses with
    ⟨hsub, hst, hc, hj⟩ | ⟨k, r, hsub, hst, hc, -, -, -⟩
  · rw [hsub, Option.toList_none, List.map_nil, ← List.append_assoc]
    refine ⟨h.coherent.apply config responses, ?_, ?_⟩
    · rw [hst]
      exact fun hp hknown => (hlisted hp hknown).configured
    · rw [hst, hc]
      intro hp
      rcases hj with hj | hnone
      · exact .inl hj
      · have hgone : ∀ j, (d.control.pass (d.received scan responses) config).submitted j = false := by
          intro j
          by_contra hs
          have := Control.constructed_of_submitted (k := j) (by simpa using hs)
          simp [hnone j] at this
        rcases howned hp with ⟨k, hk⟩ | hl
        · rcases overtaken h.coherent hk hp hgone with ho | ⟨rfl, hclcc⟩
          · have hfresh : (d.received scan responses).Fresh := h.coherent.fresh.applyLines
            obtain ⟨j, hj⟩ := constructed_of_overtakes hfresh hp ho
            simp [hnone j] at hj
          · exact .inr (h.listed_of_request hk hp hclcc).configured
        · exact .inr hl.configured
  · refine ⟨h.coherent.apply config responses, ?_, fun _ => .inl ⟨k, ?_⟩⟩
    · -- a fresh `AT+CLCC` starts with nothing known
      rw [hst]
      intro hp hknown
      unfold Status.commandSubmitted at hp hknown
      dsimp only at hp hknown
      split at hknown
      · simp [Status.clccOutOfDate] at hknown
      · rename_i hne
        simp [hne] at hp
    · simp [hc, Control.submitted, Ops.isSubmitted]

theorem Tracked.next (h : Tracked scan obs d) (e : Event) :
    Tracked scan (obs ++ (system scan maxLineLen).obs d e) ((system scan maxLineLen).next d e) := by
  cases e with
  | apply config responses => exact h.apply config responses
  | invalidateCallList =>
    change Tracked scan (obs ++ []) d.invalidateCallList
    rw [List.append_nil]
    refine ⟨h.coherent.invalidateCallList, fun hp hknown => ?_, h.owned⟩
    rcases hknown with hknown | hknown
    · cases hknown
    · exact h.listed hp (.inr hknown)
  | cancelCommand =>
    have hnone : d.cancelCommand.status.pendingCommand = none := by
      unfold cancelCommand
      cases hp : d.status.pendingCommand with
      | none => exact hp
      | some cmd => rfl
    refine ⟨h.coherent.cancelCommand, fun hp => ?_, fun hp => absurd hnone hp⟩
    change Status.isPending d.cancelCommand.status.pendingCommand _ = true at hp
    rw [hnone] at hp
    cases hp

theorem tracked_run (settings : List (Qcfg.Name × Qcfg.Value)) (es : List Event) :
    Tracked scan ((system scan maxLineLen).log (init maxLineLen settings) es)
      ((system scan maxLineLen).run (init maxLineLen settings) es) := by
  have hinit : Tracked scan [] (init maxLineLen settings) :=
    ⟨coherent_init settings, nofun, fun hp => absurd rfl hp⟩
  simpa using System.log_invariant (S := system scan maxLineLen) (C := fun _ _ => True)
    (fun _ _ e h _ => h.next e) hinit (System.along_of_forall fun _ _ => trivial)

/-- A command that is submitted while another one is outstanding follows an
`AT+CLCC` to which the modem listed a call, unless the settings overtake. -/
theorem one_outstanding (scan : Scanner) (maxLineLen : Nat)
    (settings : List (Qcfg.Name × Qcfg.Value)) (es : List Event)
    (config : Config) (responses : List Text) :
    let d := (system scan maxLineLen).run (init maxLineLen settings) es
    let log := (system scan maxLineLen).log (init maxLineLen settings) es ++
      lineObs scan d.status (d.linesOf responses)
    let st := d.received scan responses
    (d.apply scan config responses).2.isSome → ¬ Overtakes st config d.control →
      st.pendingCommand = none ∨ CallListed scan log st := by
  intro d log st hsub hno
  have h : Tracked scan ((system scan maxLineLen).log (init maxLineLen settings) es) d :=
    tracked_run settings es
  by_contra hnot
  simp only [not_or] at hnot
  obtain ⟨hp, hlist⟩ := hnot
  rcases apply_cases scan d config responses with ⟨hs, -⟩ | ⟨k, r, -, -, -, hidle, -⟩
  · simp [hs] at hsub
  · rcases (h.lines responses).2 hp with ⟨j, hj⟩ | hl
    · rcases overtaken h.coherent hj hp hidle with ho | ⟨rfl, hclcc⟩
      · exact hno ho
      · exact hlist (h.listed_of_request hj hp hclcc)
    · exact hlist hl

def started : Driver 64 := (system plainScanner 64).run (init 64 []) startup

/-- An incoming call that is listed in front of the final `OK`. -/
def incomingListed : List Text := ["+CLCC: 1,0,4,0,0,\"5\",1\r\n".toList]

/-- `ATA` is submitted before `AT+CLCC` got its final response. -/
theorem accepted_before_ok :
    ¬ ((started.apply plainScanner { call := some {} } incomingListed).2.isSome →
        (started.received plainScanner incomingListed).pendingCommand = none) := by
  decide

theorem one_outstanding_incoming :
    CallListed plainScanner
      ((system plainScanner 64).log (init 64 []) startup ++
        lineObs plainScanner started.status (started.linesOf incomingListed))
      (started.received plainScanner incomingListed) :=
  (one_outstanding plainScanner 64 [] startup { call := some {} } incomingListed (by decide)
    (by
      rintro ⟨-, ⟨-, hreboot⟩ | ⟨hpin, -⟩ | ⟨hring, -⟩⟩
      · exact absurd hreboot (by decide)
      · exact absurd hpin (by decide)
      · exact absurd hring (by decide))).resolve_left (by decide)

end Allwinner.Modem.Driver
