import Allwinner.Modem.Pin
import Mathlib.Tactic.MkIffOfInductiveProp

/-!
# Quiet reboot

A reboot that is due cancels every operation, and then the same pass goes on to
the PIN, the power, the calls and the ring. What these construct besides the
reboot is submitted in front of it or left over for the time until `RDY`. The
reboot is quiet exactly where they find nothing to do.
-/

namespace Allwinner.Modem

open Library (System Shielded OpenSince Open)

-- ---------------------------------------------------------------------------
-- The pass that constructs the reboot
-- ---------------------------------------------------------------------------

namespace Control

variable {c c' : Control} {st : Status} {config : Config} {k : Kind}

def rejectsCall (config : Config) : Bool := config.call.any (·.hasState "rejected".toList)

/-- Apart from the settings the configuration asks for nothing new. -/
@[mk_iff] structure NothingElseDue (st : Status) (config : Config) (c : Control) : Prop where
  pinKnown : st.cpin.isSome
  pinNotAsked : pinAsked st config = false
  powerStays : config.powerValue.chars = "off".toList → st.poweredDown
  callKept : c.outboundInfo.isSome → config.call.isSome ∧ rejectsCall config = false
  callNotRejected : rejectsCall config → st.currentCall.any (fun call => call.incoming || call.active) = false
  listKnown : readyForTelephony st → st.clccUpToDate
  noneAccepted : ∀ node ∈ config.call, callsKnown st → node.accepted →
    st.currentCall.any (·.incoming) = false
  noneDialed : ∀ node ∈ config.call, callsKnown st → node.accepted → st.currentCall.isNone →
    c.outbound node.numberValue ∨ c.rejected st node.numberValue
  noRing : config.ring.isSome → c.currentRingCount = st.ringCount

instance : Decidable (NothingElseDue st config c) := decidable_of_iff _ (nothingElseDue_iff ..).symm

theorem destruct_of_absent (h : c.ops k = none) : c.destruct k = c := by
  unfold destruct
  rw [← h, Function.update_eq_self]

/-- Stages that find nothing to do leave the operations alone. -/
theorem applyPin_of_nothing (h : NothingElseDue st config c') (hpin : c.submitted .requestPinState = false)
    (hset : c.submitted .setPin = false) : c.applyPin st config.pinValue = c := by
  have hd : c.destructIf (c.pinRequestFailed st .requestPinState) .requestPinState = c := by
    simp [destructIf, pinRequestFailed, hpin]
  have hfailed : c.pinRequestFailed st .setPin = false := by simp [pinRequestFailed, hset]
  obtain ⟨cpin, hcpin⟩ := Option.isSome_iff_exists.mp h.pinKnown
  have hask : cpin.chars = "SIM PIN".toList → config.pinValue.chars = [] := by
    intro hsim
    simpa [pinAsked, hcpin, hsim] using h.pinNotAsked
  unfold applyPin
  rw [hd]
  dsimp only
  rw [hfailed, if_neg Bool.false_ne_true, hcpin]
  dsimp only
  by_cases hsim : cpin.chars = "SIM PIN".toList
  · rw [if_neg (not_not.mpr hsim), if_pos (hask hsim)]
  · rw [if_pos hsim]

theorem applyPower_of_nothing (h : NothingElseDue st config c') (hp : c.submitted .powerDown = false) :
    c.applyPower st config.powerValue = c := by
  unfold applyPower
  simp only [hp, Bool.false_and, destructIf, Bool.false_eq_true, if_false]
  rw [if_neg]
  rintro ⟨hoff, hup⟩
  exact hup (h.powerStays hoff)

theorem applyHangUp_of_nothing (h : NothingElseDue st config c)
    (hinfo : c'.outboundInfo = c.outboundInfo) : c'.applyHangUp st config = c' := by
  have hinit : c'.hangUpInitiated config = c' := by
    unfold hangUpInitiated
    refine if_neg ?_
    rintro ⟨hsome, hcall⟩
    obtain ⟨hnode, hrej⟩ := h.callKept (hinfo ▸ hsome)
    rcases hcall with hcall | hcall
    · rw [Option.isNone_iff_eq_none.mp hcall] at hnode
      cases hnode
    · exact Bool.false_ne_true (hrej.symm.trans hcall)
  unfold applyHangUp
  rw [hinit, if_neg (c := config.call.any _ = true ∧ _), ite_self]
  rintro ⟨hrej, hcall⟩
  exact Bool.false_ne_true ((h.callNotRejected hrej).symm.trans hcall)

theorem keepCallListUpToDate_of_nothing (h : NothingElseDue st config c')
    (hl : c.ops .requestCallList = none) : c.keepCallListUpToDate st = c := by
  unfold keepCallListUpToDate
  split
  · rfl
  · rename_i hready
    rw [if_pos (h.listKnown (by simpa using hready)), destruct_of_absent hl]

theorem rejected_forgetOtherNumber : (c.forgetOtherNumber n).rejected st n = c.rejected st n := by
  unfold forgetOtherNumber
  split
  · rename_i h
    cases hi : c.outboundInfo with
    | none => simp [rejected, hi]
    | some i =>
      have : i.call.number ≠ n := by simpa [hi] using h
      simp [rejected, hi, this]
  · rfl

theorem applyCall_of_nothing (h : NothingElseDue st config c) (hnode : config.call = some node)
    (hinfo : c'.outboundInfo = c.outboundInfo) : (c'.applyCall st node).ops = c'.ops := by
  rw [applyCall_eq]
  split
  · rename_i hk
    have haccept (c : Control) : c.acceptIncomingCall st node = c := by
      unfold acceptIncomingCall
      refine if_neg ?_
      rintro ⟨hin, hacc⟩
      exact Bool.false_ne_true ((h.noneAccepted node hnode hk hacc).symm.trans hin)
    have hops : (c'.beforeDial st node).ops = c'.ops := by
      rw [beforeDial, forgetOtherNumber_ops, haccept, noteListedCall_ops]
    unfold initiateCall
    rw [if_neg, hops]
    rintro ⟨hidle, hacc, hrej, hout⟩
    have hnote : c'.noteListedCall st = c' := by
      simp [noteListedCall, Option.isNone_iff_eq_none.mp hidle]
    rw [beforeDial, haccept, hnote, rejected_forgetOtherNumber, rejected, hinfo] at hrej
    rw [beforeDial, haccept, hnote, outbound_forgetOtherNumber, outbound, hinfo] at hout
    rcases h.noneDialed node hnode hk hacc hidle with hd | hd
    · exact hout hd
    · exact hrej hd
  · rfl

theorem applyRing_of_nothing (h : NothingElseDue st config c) (hring : config.ring = some ring)
    (hcount : c'.currentRingCount = c.currentRingCount) : c'.applyRing st ring = c' := by
  unfold applyRing
  rw [if_neg]
  simp [hcount, h.noRing (by simp [hring])]

theorem NothingElseDue.congr (h : NothingElseDue st config c) (hinfo : c'.outboundInfo = c.outboundInfo)
    (hcount : c'.currentRingCount = c.currentRingCount) : NothingElseDue st config c' where
  pinKnown := h.pinKnown
  pinNotAsked := h.pinNotAsked
  powerStays := h.powerStays
  callKept := hinfo ▸ h.callKept
  callNotRejected := h.callNotRejected
  listKnown := h.listKnown
  noneAccepted := h.noneAccepted
  noneDialed := by
    unfold outbound rejected
    rw [hinfo]
    exact h.noneDialed
  noRing := hcount ▸ h.noRing

/-- Where nothing else is due, the reboot is all that the settings leave. -/
theorem applySettings_of_nothing (hdue : c.rebootDue st) (h : NothingElseDue st config c) :
    (c.applySettings st config).ops = (({} : Control).construct .reboot).ops := by
  obtain ⟨e, he⟩ : ∃ e, c.applyQcfg st st.qcfg = e := ⟨_, rfl⟩
  have hops : e.ops = (({} : Control).construct .reboot).ops := by
    rw [← he, applyQcfg_of_due hdue]
    rfl
  have habsent : ∀ k, k ≠ .reboot → e.ops k = none := by
    intro k hk
    rw [hops, construct_ops_of_ne hk]
  have hidle : ∀ k, k ≠ .reboot → e.submitted k = false := by
    intro k hk
    simp [submitted, Ops.isSubmitted, habsent k hk]
  have hinfo : e.outboundInfo = c.outboundInfo := he ▸ outboundInfo_applyQcfg
  have hcount : e.currentRingCount = c.currentRingCount := he ▸ currentRingCount_applyQcfg
  have hcall : c.beforeCall st config = e := by
    rw [beforeCall, he, applyPin_of_nothing h (hidle _ (by decide)) (hidle _ (by decide)),
      applyPower_of_nothing h (hidle _ (by decide)), applyHangUp_of_nothing h hinfo,
      keepCallListUpToDate_of_nothing h (habsent _ (by decide))]
  have hring : (c.beforeRing st config).ops = e.ops := by
    unfold beforeRing
    split
    · rw [hcall]
    · rename_i node hnode
      rw [hcall, applyCall_of_nothing h hnode hinfo]
  rw [applySettings_eq]
  split
  · rw [hring, hops]
  · rename_i ring hr
    rw [applyRing_of_nothing h hr (currentRingCount_beforeRing config), hring, hops]

/-- The settings construct the reboot only when it is due. -/
theorem applySettings_reboot_of_not_due (config : Config) (hdue : c.rebootDue st = false) :
    (c.applySettings st config).ops .reboot = c.ops .reboot := by
  rw [applySettings_ops config (by decide), beforeRing_ops config (by decide),
    beforeCall_ops config (by decide), (touches_applyQcfg hdue).ops _ (by decide)]

/-- What a pass makes of the reboot: it constructs it and nothing else, or it
leaves it absent with the modem ready or with at most the probe being new, or it
finds it and adds at most the probe. -/
theorem pass_reboot_cases (c : Control) (st : Status) (config : Config)
    (h : (c.completeOperation st).settingsReached st → (c.completeOperation st).rebootDue st →
      NothingElseDue st config c) :
    (c.pass st config).ops = (({} : Control).construct .reboot).ops ∧ st.rdy = true ∨
    (c.pass st config).ops .reboot = none ∧ (c.completeOperation st).ops .reboot = none ∧
      (st.rdy = false → ∀ k, k ≠ .checkReady →
        (c.pass st config).ops k = (c.completeOperation st).ops k) ∨
    (c.completeOperation st).constructed .reboot = true ∧ ∀ k, k ≠ .checkReady →
      (c.pass st config).ops k = (c.completeOperation st).ops k := by
  set c₀ := c.completeOperation st with hc₀
  set c₁ := c₀.conditional (!st.atOk) .checkReady with hc₁
  have hprobe : ∀ k, k ≠ .checkReady → c₁.ops k = c₀.ops k := fun k hk => conditional_ops_of_ne hk
  have hreboot : c₁.constructed .reboot = c₀.constructed .reboot :=
    constructed_congr (hprobe _ (by decide))
  have habsent : ∀ {c : Control}, c.constructed .reboot = false → c.ops .reboot = none := by
    intro c hc
    simpa [constructed] using hc
  have hpass : c.pass st config = c₁.applyConfigNode st config := rfl
  rw [hpass]
  rcases applyConfigNode_cases st config c₁ with ⟨hstop, he⟩ | ⟨hno, hrdy, -, he⟩ | ⟨hreached, he⟩
  · rw [he]
    cases hr : c₀.constructed .reboot with
    | true => exact .inr (.inr ⟨rfl, hprobe⟩)
    | false =>
      have hnone : c₀.ops .reboot = none := habsent hr
      exact .inr (.inl ⟨(hprobe _ (by decide)).trans hnone, hnone, fun _ => hprobe⟩)
  · have hnone : c₀.ops .reboot = none := habsent (hreboot.symm.trans hno)
    refine .inr (.inl ⟨?_, hnone, fun hrdy' => ?_⟩)
    · rw [he, conditional_ops_of_ne (by decide), hprobe _ (by decide), hnone]
    · exact absurd (hrdy'.symm.trans hrdy) Bool.false_ne_true
  · have hready : c₀.settingsReached st = true := by simpa [settingsReached, hreboot] using hreached
    simp only [settingsReached, Bool.and_eq_true, Bool.not_eq_true'] at hready
    have htouch : Touches [.checkReady, .disableEcho] c₀ (c₁.destruct .disableEcho) :=
      (Touches.conditional _ _ (by simp)).trans (.destruct (by simp))
    have hnone : c₀.ops .reboot = none := habsent hready.1.1
    have hdue : (c₁.destruct .disableEcho).rebootDue st = c₀.rebootDue st := by
      rw [rebootDue, constructed_congr (htouch.ops .reboot (by decide)), rebootDue]
    rw [he]
    cases hd : c₀.rebootDue st with
    | true =>
      have hfound := h (by simp [settingsReached, hready]) hd
      refine .inl ⟨applySettings_of_nothing (hdue.trans hd) (hfound.congr ?_ ?_), hready.1.2⟩
      · exact htouch.outboundInfo.trans touches_completeOperation.outboundInfo
      · exact htouch.currentRingCount.trans touches_completeOperation.currentRingCount
    | false =>
      refine .inr (.inl ⟨?_, hnone, fun hrdy => ?_⟩)
      · rw [applySettings_reboot_of_not_due config (hdue.trans hd), htouch.ops _ (by decide), hnone]
      · exact absurd (hrdy.symm.trans hready.1.2) Bool.false_ne_true

end Control

-- ---------------------------------------------------------------------------
-- The reboot in the log
-- ---------------------------------------------------------------------------

namespace Obs

/-- The pass constructed the reboot operation. -/
def constructsReboot : Obs → Bool
  | .configured _ _ c => c.pending .reboot
  | _ => false

def isRdy : Obs → Bool
  | .line l _ => l = lineRdy
  | _ => false

def submitsReboot : Obs → Bool := submits fun _ _ s => decide (s.kind = .reboot)

def submitsOther : Obs → Bool := submits fun _ _ s => decide (s.kind ≠ .reboot)

/-- The submitted command is the one with text `t`. -/
def commands (t : Text) : Obs → Bool := submits fun _ _ s => decide (s.command.chars = t)

def commandsOther (t : Text) : Obs → Bool := submits fun _ _ s => decide (s.command.chars ≠ t)

end Obs

/-- The operation submitted last is the reboot. -/
def Rebooting (h : List Obs) : Prop := Open (Obs.submitsReboot ·) (Obs.submitsOther ·) h

/-- The line confirms the reboot operation, which was submitted last. -/
def ConfirmsReboot (h : List Obs) (x : Obs) : Prop :=
  (∃ cmd, x = .line lineOk (some cmd)) ∧ Rebooting h

/-- Once the reboot got constructed it is commanded next, and after its
confirmation only the probe is submitted until the modem is ready. -/
structure QuietReboot (log : List Obs) : Prop where
  next : Shielded (fun _ => (Obs.constructsReboot ·)) (Obs.commandsOther atReboot ·)
    (Obs.commands atReboot ·) log
  quiet : Shielded ConfirmsReboot (Obs.commandsOther atCheckReady ·) (Obs.isRdy ·) log

/-- The log of a quiet reboot, where `P` holds if the last operation submitted
is the reboot, and `Q` as long as the modem is silent. -/
structure Hushed (h : List Obs) (P Q : Prop) : Prop where
  next : Shielded (fun _ => (Obs.constructsReboot ·)) (Obs.submitsOther ·) (Obs.submitsReboot ·) h
  closed : ¬ OpenSince (fun _ => (Obs.constructsReboot ·)) (Obs.submitsReboot ·) h
  quiet : Shielded ConfirmsReboot (Obs.submits (fun _ _ s => decide (s.kind ≠ .checkReady)) ·)
    (Obs.isRdy ·) h
  last : Rebooting h → P
  silent : OpenSince ConfirmsReboot (Obs.isRdy ·) h → Q

namespace Hushed

variable {h : List Obs} {x : Obs} {P Q P' Q' : Prop}

theorem nil : Hushed [] P Q where
  next := Library.shielded_nil
  closed := Library.not_openSince_nil
  quiet := Library.shielded_nil
  last hr := absurd hr Library.not_open_nil
  silent ho := absurd ho Library.not_openSince_nil

theorem imp (hh : Hushed h P Q) (hP : P → P') (hQ : Q → Q') : Hushed h P' Q' :=
  { hh with last := fun hr => hP (hh.last hr), silent := fun ho => hQ (hh.silent ho) }

/-- An entry that neither constructs nor submits. -/
theorem snoc (hh : Hushed h P Q) (hcons : x.constructsReboot = false)
    (hsub : ∀ p, x.submits p = false) (hconf : ConfirmsReboot h x → Q')
    (hsilent : Q → x.isRdy = false → Q') : Hushed (h ++ [x]) P Q' where
  next := hh.next.snoc fun hb => by simp [Obs.submitsOther, hsub] at hb
  closed ho := by
    rcases Library.openSince_snoc.mp ho with hc | ⟨ho, -⟩
    · simp [hcons] at hc
    · exact hh.closed ho
  quiet := hh.quiet.snoc fun hb => by simp [hsub] at hb
  last hr := by
    rcases Library.open_snoc.mp hr with hs | ⟨hr, -⟩
    · simp [Obs.submitsReboot, hsub] at hs
    · exact hh.last hr
  silent ho := by
    rcases Library.openSince_snoc.mp ho with hc | ⟨ho, hr⟩
    · exact hconf hc
    · exact hsilent (hh.silent ho) (by simpa using hr)

/-- An operation other than the reboot is submitted, in silence only the probe. -/
theorem submitted (hh : Hushed h P Q) {s : Control.Submission} (hk : s.kind ≠ .reboot)
    (hprobe : Q → s.kind = .checkReady) : Hushed (h ++ [.submitted config st s]) False Q where
  next := hh.next.snoc fun _ => hh.closed
  closed ho := by
    rcases Library.openSince_snoc.mp ho with hc | ⟨ho, -⟩
    · cases hc
    · exact hh.closed ho
  quiet := hh.quiet.snoc fun hb ho => by
    simp [Obs.submits, hprobe (hh.silent ho)] at hb
  last hr := by
    rcases Library.open_snoc.mp hr with hs | ⟨-, hs⟩
    · simp [Obs.submitsReboot, Obs.submits, hk] at hs
    · simp [Obs.submitsOther, Obs.submits, hk] at hs
  silent ho := by
    rcases Library.openSince_snoc.mp ho with hc | ⟨ho, -⟩
    · obtain ⟨⟨cmd, hcmd⟩, -⟩ := hc
      cases hcmd
    · exact hh.silent ho

/-- The reboot is constructed and submitted at once. -/
theorem rebooted (hh : Hushed h P Q) {s : Control.Submission} (hk : s.kind = .reboot) (hQ : ¬ Q) :
    Hushed (h ++ [.configured config st c, .submitted config st s]) True Q := by
  have hsilent : ¬ OpenSince ConfirmsReboot (Obs.isRdy ·) (h ++ [.configured config st c]) := by
    intro ho
    rcases Library.openSince_snoc.mp ho with ⟨⟨cmd, hcmd⟩, -⟩ | ⟨ho, -⟩
    · cases hcmd
    · exact hQ (hh.silent ho)
  have hstep : h ++ [.configured config st c, .submitted config st s] =
      (h ++ [.configured config st c]) ++ [.submitted config st s] := by simp
  rw [hstep]
  constructor
  · refine (hh.next.snoc fun hb => by cases hb).snoc fun hb => ?_
    simp [Obs.submitsOther, Obs.submits, hk] at hb
  · intro ho
    rcases Library.openSince_snoc.mp ho with hc | ⟨-, hs⟩
    · cases hc
    · simp [Obs.submitsReboot, Obs.submits, hk] at hs
  · exact (hh.quiet.snoc fun hb => by cases hb).snoc fun _ => hsilent
  · exact fun _ => trivial
  · intro ho
    rcases Library.openSince_snoc.mp ho with ⟨⟨cmd, hcmd⟩, -⟩ | ⟨ho, -⟩
    · cases hcmd
    · exact absurd ho hsilent

/-- The commands of the operations are those the modem sees. -/
theorem quietReboot (hh : Hushed h P Q) : QuietReboot h where
  next := by
    refine hh.next.mono (fun x hx => ?_) fun x hx => ?_
    · cases x with
      | submitted config st s =>
        obtain ⟨k, r⟩ := s
        simp only [Obs.commandsOther, Obs.submits, decide_eq_true_eq] at hx
        simp only [Obs.submitsOther, Obs.submits, decide_eq_true_eq]
        rintro rfl
        cases r
        exact hx rfl
      | _ => cases hx
    · cases x with
      | submitted config st s =>
        obtain ⟨k, r⟩ := s
        simp only [Obs.submitsReboot, Obs.submits, decide_eq_true_eq] at hx
        subst hx
        cases r
        rfl
      | _ => cases hx
  quiet := by
    refine hh.quiet.mono (fun x hx => ?_) fun x hx => hx
    cases x with
    | submitted config st s =>
      obtain ⟨k, r⟩ := s
      simp only [Obs.commandsOther, Obs.submits, decide_eq_true_eq] at hx
      simp only [Obs.submits, decide_eq_true_eq]
      rintro rfl
      cases r
      exact hx rfl
    | _ => cases hx

end Hushed

-- ---------------------------------------------------------------------------
-- Runs
-- ---------------------------------------------------------------------------

namespace Driver

variable {scan : Scanner} {maxLineLen : Nat} {d : Driver maxLineLen} {obs : List Obs}
variable {config : Config} {responses : List Text}

/-- A reboot that becomes due in this call is due alone. -/
def RebootAlone (scan : Scanner) (d : Driver maxLineLen) : Event → Prop
  | .apply config responses =>
    let st := d.received scan responses
    let c := d.control.completeOperation st
    c.settingsReached st → c.rebootDue st → Control.NothingElseDue st config d.control
  | .invalidateCallList => True
  | .cancelCommand => True

instance : ∀ (d : Driver maxLineLen) e, Decidable (RebootAlone scan d e)
  | d, .apply config responses => inferInstanceAs (Decidable
      ((d.control.completeOperation (d.received scan responses)).settingsReached
          (d.received scan responses) = true →
        (d.control.completeOperation (d.received scan responses)).rebootDue
          (d.received scan responses) = true →
        Control.NothingElseDue (d.received scan responses) config d.control))
  | _, .invalidateCallList => isTrue trivial
  | _, .cancelCommand => isTrue trivial

/-- Nothing but the probe, and `also` the operation `j`. -/
def OnlyProbe (c : Control) (j : Kind) : Prop :=
  ∀ k, k ≠ .checkReady → k ≠ j → c.constructed k = false

/-- What a run of quiet reboots keeps: the reboot is in flight as soon as it is
constructed, with nothing but the probe besides, and the log is a quiet one. -/
structure Quiet (h : List Obs) (d : Driver maxLineLen) : Prop where
  coherent : d.Coherent
  commanded : d.control.pending .reboot = false
  alone : d.control.constructed .reboot → OnlyProbe d.control .reboot
  hushed : Hushed h (d.status.pendingCommand ≠ none → d.control.submitted .reboot)
    (d.status.rdy = false ∧ OnlyProbe d.control .checkReady)

theorem quiet_init (settings : List (Qcfg.Name × Qcfg.Value)) : Quiet [] (init maxLineLen settings) where
  coherent := coherent_init settings
  commanded := rfl
  alone := by simp [init]
  hushed := .nil

/-- The lines of a batch: what is confirmed is the reboot in flight. -/
theorem Quiet.lines (h : Quiet obs d) (responses : List Text) :
    Hushed (obs ++ lineObs scan d.status (d.linesOf responses))
      ((d.received scan responses).pendingCommand ≠ none → d.control.submitted .reboot)
      ((d.received scan responses).rdy = false ∧ OnlyProbe d.control .reboot ∧
        (d.control.constructed .reboot → (d.received scan responses).ok)) := by
  refine (lineObs_invariant (I := fun h s => Hushed h
      (s.pendingCommand ≠ none → d.control.submitted .reboot)
      (s.rdy = false ∧ OnlyProbe d.control .reboot ∧ (d.control.constructed .reboot → s.ok)) ∧
    ∀ cmd r, s.pendingCommand = some cmd → d.control.ops .reboot = some ⟨r, .submitted⟩ →
      r.command = cmd) ?_ ⟨h.hushed.imp id ?_, fun cmd r => h.coherent.owner cmd .reboot r⟩).1
  · rintro log s l ⟨hh, howner⟩
    have hpend : ∀ {cmd}, (s.applyLine scan l).pendingCommand = some cmd →
        s.pendingCommand = some cmd := by
      intro cmd hp
      rw [Status.pendingCommand_applyLine] at hp
      split at hp
      · cases hp
      · exact hp
    refine ⟨?_, fun cmd r hp => howner cmd r (hpend hp)⟩
    refine (hh.snoc (x := .line l s.pendingCommand) rfl (fun _ => rfl) ?_ ?_).imp
      (fun hP hp => ?_) id
    · -- the pending command is the reboot in flight
      rintro ⟨⟨cmd, hx⟩, hr⟩
      obtain ⟨rfl, hcmd⟩ := Obs.line.inj hx
      have hsub := hh.last hr (by simp [hcmd])
      obtain ⟨⟨r, state⟩, hop, rfl⟩ := Control.submitted_iff.mp hsub
      have hconf : s.ConfirmsReboot lineOk := by
        refine ⟨rfl, ?_⟩
        have := howner cmd r hcmd hop
        cases r
        rw [hcmd, ← this]
        decide
      refine ⟨by simp [Status.rdy_applyLine, hconf], ?_, fun _ => by simp [Status.ok_applyLine]⟩
      exact h.alone (Control.constructed_of_submitted hsub)
    · rintro ⟨hrdy, honly, hok⟩ hl
      have hne : l ≠ lineRdy := by simpa [Obs.isRdy] using hl
      refine ⟨by simp [Status.rdy_applyLine, hrdy, hne], honly, fun hc => ?_⟩
      simp [Status.ok_applyLine, hok hc]
    · obtain ⟨cmd, hcmd⟩ := Option.ne_none_iff_exists'.mp hp
      exact hP (by simp [hpend hcmd])
  · rintro ⟨hrdy, honly⟩
    refine ⟨hrdy, fun k hk _ => honly k hk hk, fun hc => ?_⟩
    simp [honly .reboot (by decide) (by decide)] at hc

theorem pending_of_none {c : Control} (h : c.ops k = none) : c.pending k = false := by
  simp [Control.pending, Ops.isPending, h]

theorem constructed_of_none {c : Control} (h : c.ops k = none) : c.constructed k = false := by
  simp [Control.constructed, h]

/-- What is left after completion was there before. -/
theorem constructed_complete {st : Status} {c : Control} (h : c.constructed k = false) :
    (c.completeOperation st).constructed k = false := by
  by_contra hc
  have := Coherent.constructed_of_complete (by simpa using hc)
  simp [h] at this

/-- The reboot that got constructed goes out at once. -/
theorem Quiet.apply_reboot (h : Quiet obs d) (hrdy : (d.received scan responses).rdy = true)
    (hops : (d.control.pass (d.received scan responses) config).ops =
      (({} : Control).construct .reboot).ops) :
    Quiet (obs ++ (system scan maxLineLen).obs d (.apply config responses))
      (d.apply scan config responses).1 := by
  have hlines : Hushed (obs ++ lineObs scan _ _) _ _ := h.lines responses
  set st := d.received scan responses with hst
  set c' := d.control.pass st config with hc'
  have hother : ∀ k, k ≠ .reboot → c'.ops k = none := by
    intro k hk
    rw [hops, Control.construct_ops_of_ne hk]
  have hself : c'.ops .reboot = some { request := .reboot } := by rw [hops, Control.construct_ops_self]
  rcases apply_cases scan d config responses with
    ⟨-, -, -, hj⟩ | ⟨k, r, hsub, hstatus, hcontrol, -, hop, -⟩
  · exfalso
    rcases hj with ⟨j, hj⟩ | hnone
    · by_cases hj' : j = .reboot
      · subst hj'
        rw [← hst, ← hc'] at hj
        simp [Control.submitted, Ops.isSubmitted, hself] at hj
      · rw [← hst, ← hc'] at hj
        simp [Control.submitted, Ops.isSubmitted, hother j hj'] at hj
    · have := hnone .reboot
      rw [← hst, ← hc'] at this
      simp [Control.constructed, hself] at this
  · rw [← hst, ← hc'] at hop hcontrol
    obtain rfl : k = .reboot := by
      by_contra hk
      rw [hother k hk] at hop
      cases hop
    have hcons := fun j => Control.constructed_submit hop j
    refine ⟨h.coherent.apply config responses, ?_, fun _ k _ hk => ?_, ?_⟩
    · rw [hcontrol]
      simp [Control.pending, Ops.isPending]
    · rw [hcontrol, hcons]
      exact constructed_of_none (hother k hk)
    · rw [obs_apply, hsub, hcontrol, hstatus, ← List.append_assoc]
      refine (hlines.rebooted rfl ?_).imp (fun _ _ => ?_) ?_
      · rintro ⟨hquiet, -⟩
        exact Bool.false_ne_true (hquiet.symm.trans hrdy)
      · simp [Control.submitted, Ops.isSubmitted]
      · rintro ⟨hquiet, -⟩
        exact absurd (hquiet.symm.trans hrdy) Bool.false_ne_true

/-- In silence the operations of the pass are those of the call before, the probe apart. -/
theorem onlyProbe_pass {st : Status} {c c' : Control} (h : OnlyProbe c .reboot)
    (hnone : c'.ops .reboot = none)
    (hsame : ∀ k, k ≠ .checkReady → c'.ops k = (c.completeOperation st).ops k) :
    OnlyProbe c' .checkReady := by
  intro k hk _
  by_cases hr : k = .reboot
  · subst hr
    exact constructed_of_none hnone
  · rw [Control.constructed_congr (hsame k hk)]
    exact constructed_complete (h k hk hr)

/-- Without a reboot constructed, a pass submits other operations, in silence
nothing but the probe. -/
theorem Quiet.apply_absent (h : Quiet obs d)
    (hnone : (d.control.pass (d.received scan responses) config).ops .reboot = none)
    (hbefore : (d.control.completeOperation (d.received scan responses)).ops .reboot = none)
    (hsame : (d.received scan responses).rdy = false → ∀ k, k ≠ .checkReady →
      (d.control.pass (d.received scan responses) config).ops k =
        (d.control.completeOperation (d.received scan responses)).ops k) :
    Quiet (obs ++ (system scan maxLineLen).obs d (.apply config responses))
      (d.apply scan config responses).1 := by
  have hfresh : (d.received scan responses).Fresh := h.coherent.fresh.applyLines
  have hlines : Hushed (obs ++ lineObs scan _ _) _ _ := h.lines responses
  set st := d.received scan responses with hst
  set c' := d.control.pass st config with hc'
  have hconf : ∀ (x : Obs), x = .configured config st c' → x.constructsReboot = false := by
    rintro x rfl
    exact pending_of_none hnone
  -- the reboot submitted last got its response
  have hpass : Hushed (obs ++ lineObs scan d.status (d.linesOf responses) ++ [.configured config st c'])
      (st.pendingCommand ≠ none → False) (st.rdy = false ∧ OnlyProbe c' .checkReady) := by
    refine (hlines.snoc (x := .configured config st c') (hconf _ rfl) (fun _ => rfl) ?_ ?_).imp
      (fun hP hp => ?_) id
    · rintro ⟨⟨cmd, hcmd⟩, -⟩
      cases hcmd
    · rintro ⟨hrdy, honly, -⟩ -
      exact ⟨hrdy, onlyProbe_pass honly hnone (hsame hrdy)⟩
    · have hcomp : d.control.completeOperation st = d.control :=
        Control.completeOperation_of_not_ok (hfresh hp).1
      rw [hcomp] at hbefore
      have := hP hp
      simp [Control.submitted, Ops.isSubmitted, hbefore] at this
  rcases apply_cases scan d config responses with
    ⟨hsub, hstatus, hcontrol, -⟩ | ⟨k, r, hsub, hstatus, hcontrol, -, hop, -⟩
  · rw [← hst, ← hc'] at hcontrol
    refine ⟨h.coherent.apply config responses, ?_, ?_, ?_⟩
    · rw [hcontrol]
      exact pending_of_none hnone
    · rw [hcontrol, constructed_of_none hnone]
      exact fun hf => absurd hf Bool.false_ne_true
    · rw [obs_apply, hsub, hcontrol, hstatus, ← List.append_assoc]
      exact hpass.imp (fun hP hp => (hP hp).elim) id
  · rw [← hst, ← hc'] at hop hcontrol
    have hk : k ≠ .reboot := by
      rintro rfl
      rw [hnone] at hop
      cases hop
    have hcons := fun j => Control.constructed_submit hop j
    refine ⟨h.coherent.apply config responses, ?_, ?_, ?_⟩
    · rw [hcontrol]
      simp [Control.pending, Ops.isPending, hk.symm, hnone]
    · rw [hcontrol, hcons, constructed_of_none hnone]
      exact fun hf => absurd hf Bool.false_ne_true
    · have hprobe : st.rdy = false ∧ OnlyProbe c' .checkReady → k = .checkReady := by
        rintro ⟨-, honly⟩
        by_contra hne
        have := honly k hne hne
        simp [Control.constructed, hop] at this
      rw [obs_apply, hsub, hcontrol, hstatus]
      have hlog : Hushed (_ ++ [.submitted config st ⟨k, r⟩]) _ _ := hpass.submitted hk hprobe
      refine (by simpa using hlog : Hushed _ False _).imp False.elim ?_
      rintro ⟨hrdy, honly⟩
      refine ⟨(Status.rdy_commandSubmitted ..).trans hrdy, fun j hj hj' => ?_⟩
      rw [hcons]
      exact honly j hj hj'

/-- A reboot found by the pass is in flight, and stays there. -/
theorem Quiet.apply_found (h : Quiet obs d)
    (hfound : (d.control.completeOperation (d.received scan responses)).constructed .reboot = true)
    (hsame : ∀ k, k ≠ .checkReady → (d.control.pass (d.received scan responses) config).ops k =
      (d.control.completeOperation (d.received scan responses)).ops k) :
    Quiet (obs ++ (system scan maxLineLen).obs d (.apply config responses))
      (d.apply scan config responses).1 := by
  have hlines : Hushed (obs ++ lineObs scan _ _) _ _ := h.lines responses
  set st := d.received scan responses with hst
  set c' := d.control.pass st config with hc'
  obtain ⟨op, hop⟩ := Control.constructed_iff.mp hfound
  have hop' : d.control.ops .reboot = some op := Control.completeOperation_ops hop
  have hthere : d.control.constructed .reboot := Control.constructed_iff.mpr ⟨op, hop'⟩
  have hflight : d.control.submitted .reboot :=
    (Control.constructed_cases hthere).resolve_left (by simp [h.commanded])
  have hok : ¬ st.ok = true := by
    intro hok
    rw [Coherent.retired h.coherent hok hflight] at hop
    cases hop
  have hstays : c'.submitted .reboot := by
    obtain ⟨op', hop'', hs⟩ := Control.submitted_iff.mp hflight
    rw [hop', Option.some.injEq] at hop''
    exact Control.submitted_iff.mpr ⟨op, (hsame _ (by decide)).trans hop, hop''.symm ▸ hs⟩
  rcases apply_cases scan d config responses with
    ⟨hsub, hstatus, hcontrol, -⟩ | ⟨k, r, -, -, -, hidle, -, -⟩
  · rw [← hst, ← hc'] at hcontrol
    have hunpended : c'.pending .reboot = false := by
      by_contra hp
      exact Control.not_submitted_of_pending (by simpa using hp) hstays
    refine ⟨h.coherent.apply config responses, ?_, fun _ k hk hk' => ?_, ?_⟩
    · rw [hcontrol]
      exact hunpended
    · rw [hcontrol, Control.constructed_congr (hsame k hk)]
      exact constructed_complete (h.alone hthere k hk hk')
    · rw [obs_apply, hsub, hcontrol, hstatus, ← List.append_assoc]
      refine (hlines.snoc (x := .configured config st c') hunpended (fun _ => rfl) ?_ ?_).imp
        (fun _ _ => hstays) id
      · rintro ⟨⟨cmd, hcmd⟩, -⟩
        cases hcmd
      · rintro ⟨-, -, hconfirmed⟩ -
        exact absurd (hconfirmed hthere) hok
  · rw [← hst, ← hc'] at hidle
    exact absurd (hidle .reboot ▸ hstays) Bool.false_ne_true

theorem Quiet.apply (h : Quiet obs d) (hC : RebootAlone scan d (.apply config responses)) :
    Quiet (obs ++ (system scan maxLineLen).obs d (.apply config responses))
      (d.apply scan config responses).1 := by
  rcases Control.pass_reboot_cases d.control (d.received scan responses) config hC with
    ⟨hops, hrdy⟩ | ⟨hnone, hbefore, hsame⟩ | ⟨hfound, hsame⟩
  · exact h.apply_reboot hrdy hops
  · exact h.apply_absent hnone hbefore hsame
  · exact h.apply_found hfound hsame

/-- Cancelling leaves no command pending, and no operation that was not there. -/
theorem Quiet.cancelCommand (h : Quiet obs d) :
    Quiet (obs ++ (system scan maxLineLen).obs d .cancelCommand) d.cancelCommand := by
  have hcons : ∀ k, d.control.constructed k = false → d.cancelCommand.control.constructed k = false := by
    intro k hk
    by_contra hc
    obtain ⟨op, hop⟩ := Control.constructed_iff.mp (by simpa using hc)
    simp [Control.constructed, cancelCommand_ops hop] at hk
  have hpend : d.cancelCommand.status.pendingCommand = none := by
    unfold Driver.cancelCommand
    cases hp : d.status.pendingCommand with
    | none => exact hp
    | some cmd => rfl
  have hrdy : d.cancelCommand.status.rdy = d.status.rdy := by
    unfold Driver.cancelCommand
    cases d.status.pendingCommand <;> rfl
  refine ⟨h.coherent.cancelCommand, ?_, fun hr k hk hk' => ?_, ?_⟩
  · by_contra hp
    obtain ⟨op, hop, hs⟩ := Control.pending_iff.mp (by simpa using hp)
    have := Control.pending_iff.mpr ⟨op, cancelCommand_ops hop, hs⟩
    simp [h.commanded] at this
  · refine hcons k (h.alone ?_ k hk hk')
    by_contra hc
    simp [hcons _ (by simpa using hc)] at hr
  · rw [hrdy, hpend]
    have hquiet : d.status.rdy = false ∧ OnlyProbe d.control .checkReady →
        d.status.rdy = false ∧ OnlyProbe d.cancelCommand.control .checkReady :=
      And.imp_right fun honly k hk hk' => hcons k (honly k hk hk')
    change Hushed (obs ++ d.status.pendingCommand.toList.map .canceled) _ _
    cases d.status.pendingCommand with
    | none =>
      rw [Option.toList_none, List.map_nil, List.append_nil]
      exact h.hushed.imp (fun _ hn => absurd rfl hn) hquiet
    | some cmd =>
      refine (h.hushed.snoc (x := .canceled cmd) rfl (fun _ => rfl) ?_ fun hq _ => hquiet hq).imp
        (fun _ hn => absurd rfl hn) id
      rintro ⟨⟨cmd, hcmd⟩, -⟩
      cases hcmd

theorem Quiet.next (h : Quiet obs d) (e : Event) (hC : RebootAlone scan d e) :
    Quiet (obs ++ (system scan maxLineLen).obs d e) ((system scan maxLineLen).next d e) := by
  cases e with
  | apply config responses => exact h.apply hC
  | invalidateCallList =>
    change Quiet (obs ++ []) d.invalidateCallList
    rw [List.append_nil]
    exact { h with coherent := h.coherent.invalidateCallList }
  | cancelCommand => exact h.cancelCommand

/-- Every run in which a due reboot is due alone reboots quietly. -/
theorem quiet_reboot (scan : Scanner) (maxLineLen : Nat) (settings : List (Qcfg.Name × Qcfg.Value))
    (es : List Event)
    (hrun : (system scan maxLineLen).Along (RebootAlone scan) (init maxLineLen settings) es) :
    QuietReboot ((system scan maxLineLen).log (init maxLineLen settings) es) := by
  have hinit : Quiet [] (init maxLineLen settings) := quiet_init settings
  have h : Quiet ([] ++ (system scan maxLineLen).log (init maxLineLen settings) es)
      ((system scan maxLineLen).run (init maxLineLen settings) es) :=
    System.log_invariant (I := Quiet) (fun _ _ e h hC => h.next e hC) hinit hrun
  exact h.hushed.quietReboot

/-- The modem waits for a PIN that is not configured. -/
theorem quiet_reboot_without_pin :
    QuietReboot ((system plainScanner 64).log (init 64 usbnet) (rebooted {})) :=
  quiet_reboot plainScanner 64 usbnet (rebooted {}) (by decide +kernel)

/-- With the PIN configured, it is submitted in front of the reboot. -/
theorem pin_before_reboot :
    ¬ QuietReboot ((system plainScanner 64).log (init 64 usbnet) refusedPin) := by
  rintro ⟨hnext, -⟩
  exact Library.not_shielded _ (by decide +kernel) hnext

end Driver

end Allwinner.Modem
