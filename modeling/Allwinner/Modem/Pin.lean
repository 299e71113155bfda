import Allwinner.Modem.InFlight
import Allwinner.Modem.Submissions

/-!
# SIM PIN

The PIN tried last is remembered so that a wrong PIN is not tried again, and
forgotten when a reboot is commanded. The log decides what counts: a submission
of the PIN, a configuration with another PIN, and the confirmation of a reboot.
-/

namespace Allwinner.Modem

open Library (System Open Separated)

variable {scan : Scanner} {maxLineLen : Nat}

-- ---------------------------------------------------------------------------
-- Commands
-- ---------------------------------------------------------------------------

theorem setPinCommand_chars (p : Pin) : (setPinCommand p).chars = "AT+CPIN=".toList ++ p.chars := by
  refine Str.chars_ofText ?_ ?_
  · have := p.noNul
    simp [this]
  · have := p.fits
    simp only [List.length_append]
    change 8 + _ ≤ 255
    omega

theorem setPinCommand_injective {p q : Pin} (h : setPinCommand p = setPinCommand q) : p = q := by
  have hc := congrArg Str.chars h
  rw [setPinCommand_chars, setPinCommand_chars] at hc
  exact Str.ext' (List.append_cancel_left hc)

/-- A command that the modem takes as a PIN. -/
def setsPin (c : Command) : Bool := c.startsWith "AT+CPIN=".toList

theorem setsPin_setPinCommand (p : Pin) : setsPin (setPinCommand p) = true := by
  rw [setsPin, Str.startsWith_iff, setPinCommand_chars]
  exact List.prefix_append _ _

theorem Request.kind_of_setsPin (r : Request k) (h : setsPin r.command = true) :
    k = .ring ∨ k = .setPin := by
  have hp := Str.startsWith_iff.mp h
  have hv := r.verb_prefix_or hp
  have hc := (r.verb_of_command rfl).2
  cases k with
  | checkReady => rw [hc rfl] at hp; exact absurd hp (by decide)
  | ring => exact .inl rfl
  | setPin => exact .inr rfl
  | _ => exact absurd hv (by decide)

/-- A ring command that neither enters a PIN nor reboots the modem. -/
def plainRing (c : Command) : Bool := !setsPin c && decide (c.chars ≠ atReboot)

-- ---------------------------------------------------------------------------
-- What the log says of PINs
-- ---------------------------------------------------------------------------

/-- The modem confirms a reboot. -/
def confirmsReboot : Obs → Bool
  | .line l pending => decide (l = lineOk) && Status.isPending pending atReboot
  | _ => false

/-- The PIN `p` is submitted. -/
def submitsPin (p : Pin) : Obs → Bool := Obs.submits fun _ _ s => decide (s.command = setPinCommand p)

/-- The PIN `p` may be submitted again: another PIN is configured, or a reboot confirmed. -/
def releasesPin (p : Pin) : Obs → Bool
  | .configured config _ _ => decide (config.pinValue.chars ≠ [] ∧ config.pinValue ≠ p)
  | o => confirmsReboot o

/-- A pass leaves an operation that enters a PIN. -/
def entersPin : Obs → Bool
  | .configured _ _ c => c.constructed .setPin
  | _ => false

/-- Submitted, and not released since. -/
abbrev PinTried (h : List Obs) (p : Pin) : Prop :=
  Open (submitsPin p · = true) (releasesPin p · = true) h

/-- A reboot is confirmed, and no PIN was taken up since. -/
abbrev RebootConfirmed (h : List Obs) : Prop :=
  Open (confirmsReboot · = true) (entersPin · = true) h

/-- What the log says of the PIN, the settings and the operations. -/
structure PinTracked (h : List Obs) (q : Qcfg) (c : Control) : Prop where
  op : ∀ op, c.ops .setPin = some op → op.request = .setPin c.currentPin
  tried : ∀ p, PinTried h p →
    (c.currentPin = p ∨ c.currentPin = .empty ∧ q.rebootNeeded = true) ∧ c.pending .setPin = false
  reboot : c.constructed .reboot = true → c.currentPin = .empty ∧ c.constructed .setPin = false
  confirmed : RebootConfirmed h → c.currentPin = .empty ∧ c.constructed .setPin = false
  separated : ∀ p, Separated (submitsPin p · = true) (releasesPin p · = true) h

namespace Driver

variable {d : Driver maxLineLen} {config : Config} {responses : List Text}

/-- No PIN is asked for in the pass that commands a reboot, the settings keep
needing the reboot that forgot the PIN until it is confirmed, and the ring
command is a plain one. -/
def PinKept (scan : Scanner) (d : Driver maxLineLen) : Event → Prop
  | .apply config responses =>
    let st := d.received scan responses
    let c := d.control.completeOperation st
    (c.settingsReached st = true → c.rebootDue st = true → Control.pinAsked st config = false) ∧
    (d.control.currentPin = .empty → d.status.qcfg.rebootNeeded = true →
      (∀ o ∈ lineObs scan d.status (d.linesOf responses), confirmsReboot o = false) →
      st.qcfg.rebootNeeded = true) ∧
    ∀ t ∈ config.ring, plainRing (Command.ofText t) = true
  | .invalidateCallList => True
  | .cancelCommand => True

instance (d : Driver maxLineLen) : DecidablePred (PinKept scan d)
  | .apply config responses => inferInstanceAs (Decidable (
      ((d.control.completeOperation (d.received scan responses)).settingsReached
          (d.received scan responses) = true →
        (d.control.completeOperation (d.received scan responses)).rebootDue
          (d.received scan responses) = true →
        Control.pinAsked (d.received scan responses) config = false) ∧
      (d.control.currentPin = .empty → d.status.qcfg.rebootNeeded = true →
        (∀ o ∈ lineObs scan d.status (d.linesOf responses), confirmsReboot o = false) →
        (d.received scan responses).qcfg.rebootNeeded = true) ∧
      ∀ t ∈ config.ring, plainRing (Command.ofText t) = true))
  | .invalidateCallList => isTrue trivial
  | .cancelCommand => isTrue trivial

theorem mem_lineObs (ho : o ∈ lineObs scan s ls) :
    ∃ l pending, o = .line l pending ∧ (pending = none ∨ pending = s.pendingCommand) := by
  induction ls generalizing s with
  | nil => cases ho
  | cons l ls ih =>
    rcases List.mem_cons.mp ho with rfl | ho
    · exact ⟨l, _, rfl, .inr rfl⟩
    · obtain ⟨l', pending, rfl, hp⟩ := ih ho
      refine ⟨l', pending, rfl, ?_⟩
      rw [Status.pendingCommand_applyLine] at hp
      split at hp
      · exact .inl (hp.elim id id)
      · exact hp

/-- A reboot that the modem confirms was commanded by the reboot operation. -/
theorem reboot_of_confirmed (h : Tracked scan obs d) (hring : d.RingHolds (plainRing · = true))
    (ho : o ∈ lineObs scan d.status ls) (hc : confirmsReboot o = true) :
    d.control.constructed .reboot = true := by
  obtain ⟨l, pending, rfl, hp⟩ := mem_lineObs ho
  simp only [confirmsReboot, Bool.and_eq_true] at hc
  have hpend : Status.isPending d.status.pendingCommand atReboot = true := by
    rcases hp with rfl | rfl
    · cases hc.2
    · exact hc.2
  obtain ⟨cmd, hcmd, ht⟩ : ∃ cmd, d.status.pendingCommand = some cmd ∧ cmd.chars = atReboot := by
    simpa [Status.isPending, Option.any_eq_true] using hpend
  rcases h.owned (by simp [hcmd]) with ⟨k, hk⟩ | hl
  · obtain ⟨⟨r, state⟩, hop, rfl⟩ := Control.submitted_iff.mp hk
    have hr := h.coherent.owner cmd k r hcmd hop
    rcases r.kind_of_reboot (hr ▸ ht) with rfl | rfl
    · have := hring _ hop
      simp [plainRing, hr, ht] at this
    · exact Control.constructed_of_submitted hk
  · have := hl.1
    rw [hcmd, Status.isPending_some, ht] at this
    exact absurd this (by decide)

-- ---------------------------------------------------------------------------
-- One call of the driver
-- ---------------------------------------------------------------------------

theorem not_submitsPin_of_line (ho : o ∈ lineObs scan s ls) : submitsPin p o = false := by
  obtain ⟨l, pending, rfl, -⟩ := mem_lineObs ho
  rfl

theorem not_entersPin_of_line (ho : o ∈ lineObs scan s ls) : entersPin o = false := by
  obtain ⟨l, pending, rfl, -⟩ := mem_lineObs ho
  rfl

theorem releasesPin_of_line (ho : o ∈ lineObs scan s ls) : releasesPin p o = confirmsReboot o := by
  obtain ⟨l, pending, rfl, -⟩ := mem_lineObs ho
  rfl

/-- The log of a call up to the pass. -/
def passLog (scan : Scanner) (h : List Obs) (d : Driver maxLineLen) (config : Config)
    (responses : List Text) : List Obs :=
  h ++ lineObs scan d.status (d.linesOf responses) ++
    [.configured config (d.received scan responses)
      (d.control.pass (d.received scan responses) config)]

/-- A PIN tried before the call and still so after the pass: no other PIN is
configured, no reboot confirmed, and a reboot that was due still is. -/
theorem tried_of_passLog (hd : PinTracked obs d.status.qcfg d.control)
    (he : d.PinKept scan (.apply config responses))
    (h : PinTried (passLog scan obs d config responses) p) :
    (d.control.currentPin = p ∨ d.control.currentPin = .empty ∧
        (d.received scan responses).qcfg.rebootNeeded = true) ∧
      d.control.pending .setPin = false ∧
      (config.pinValue.chars ≠ [] → config.pinValue = p) := by
  rcases Library.open_snoc.mp h with h | ⟨h, hrel⟩
  · cases h
  · obtain ⟨h, hlines⟩ := (Library.open_append fun o ho => by simp [not_submitsPin_of_line ho]).mp h
    have hno : ∀ o ∈ lineObs scan d.status (d.linesOf responses), confirmsReboot o = false := by
      intro o ho
      have := hlines o ho
      rw [releasesPin_of_line ho] at this
      simpa using this
    obtain ⟨hcur, hpend⟩ := hd.tried p h
    refine ⟨hcur.imp_right fun hc => ⟨hc.1, he.2.1 hc.1 hc.2 hno⟩, hpend, ?_⟩
    simpa [releasesPin] using hrel

/-- A reboot confirmed in front of the pass leaves no PIN remembered. -/
theorem confirmed_of_lines (ht : Tracked scan obs d) (hring : d.RingHolds (plainRing · = true))
    (hd : PinTracked obs d.status.qcfg d.control)
    (h : RebootConfirmed (obs ++ lineObs scan d.status (d.linesOf responses))) :
    d.control.currentPin = .empty ∧ d.control.constructed .setPin = false := by
  rcases (Library.open_append_of_not_closing fun o ho => by simp [not_entersPin_of_line ho]).mp h with
    h | ⟨o, ho, hc⟩
  · exact hd.confirmed h
  · exact hd.reboot (reboot_of_confirmed ht hring ho hc)

theorem PinTracked.pass (ht : Tracked scan obs d) (hring : d.RingHolds (plainRing · = true))
    (hd : PinTracked obs d.status.qcfg d.control) (he : d.PinKept scan (.apply config responses)) :
    PinTracked (passLog scan obs d config responses) (d.received scan responses).qcfg
      (d.control.pass (d.received scan responses) config) := by
  have hsep : ∀ p, Separated (submitsPin p · = true) (releasesPin p · = true)
      (passLog scan obs d config responses) := by
    intro p
    refine ((hd.separated p).append fun o ho => ?_).append fun o ho => ?_
    · simp [not_submitsPin_of_line ho]
    · obtain rfl := List.mem_singleton.mp ho
      exact Bool.false_ne_true
  have hconf : RebootConfirmed (passLog scan obs d config responses) →
      (d.control.currentPin = .empty ∧ d.control.constructed .setPin = false) ∧
        (d.control.pass (d.received scan responses) config).constructed .setPin = false := by
    intro h
    rcases Library.open_snoc.mp h with h | ⟨h, hent⟩
    · cases h
    · exact ⟨confirmed_of_lines ht hring hd h, by simpa [entersPin] using hent⟩
  rcases Control.pass_pin_cases d.control (d.received scan responses) config with
    ⟨hcur, hback, hreb⟩ | ⟨hnoreb, hneed, hask, hne, hcur, hop⟩ | ⟨hreached, hdue, hyes, hno⟩
  · -- the PIN is kept
    have hgone : d.control.constructed .setPin = false →
        (d.control.pass (d.received scan responses) config).constructed .setPin = false := by
      intro h
      by_contra hc
      obtain ⟨op, hop⟩ := Control.constructed_iff.mp (by simpa using hc)
      simp [Control.constructed_iff.mpr ⟨op, hback op hop⟩] at h
    refine ⟨fun op hop => hcur ▸ hd.op op (hback op hop), fun p hp => ?_, fun h => ?_, fun h => ?_, hsep⟩
    · obtain ⟨htried, hpend, -⟩ := tried_of_passLog hd he hp
      refine ⟨hcur ▸ htried, ?_⟩
      by_contra hc
      obtain ⟨op, hop, hs⟩ := Control.pending_iff.mp (by simpa using hc)
      simp [Control.pending_iff.mpr ⟨op, hback op hop, hs⟩] at hpend
    · obtain ⟨hempty, habs⟩ := hd.reboot (hreb h)
      exact ⟨hcur.trans hempty, hgone habs⟩
    · obtain ⟨⟨hempty, habs⟩, -⟩ := hconf h
      exact ⟨hcur.trans hempty, hgone habs⟩
  · -- a PIN is taken up that was not tried
    have hnonempty : config.pinValue.chars ≠ [] := by
      simp only [Control.pinAsked, Bool.and_eq_true, decide_eq_true_eq] at hask
      exact hask.2
    refine ⟨fun op h => ?_, fun p hp => ?_, fun h => ?_, fun h => ?_, hsep⟩
    · rw [hop, Option.some.injEq] at h
      rw [← h, hcur]
    · obtain ⟨htried, -, hsame⟩ := tried_of_passLog hd he hp
      rcases htried with hp | ⟨-, hneed'⟩
      · exact absurd ((hsame hnonempty).trans hp.symm) hne
      · simp [hneed] at hneed'
    · simp [hnoreb] at h
    · have := (hconf h).2
      simp [Control.constructed, hop] at this
  · -- a reboot is commanded
    obtain ⟨hnone, hempty⟩ := hno (he.1 hreached hdue)
    have habs : (d.control.pass (d.received scan responses) config).constructed .setPin = false := by
      simp [Control.constructed, hnone]
    have hneed : (d.received scan responses).qcfg.rebootNeeded = true := by
      simp only [Control.rebootDue, Bool.and_eq_true] at hdue
      exact hdue.2
    refine ⟨fun op h => by simp [hnone] at h, fun p _ => ⟨.inr ⟨hempty, hneed⟩, ?_⟩,
      fun _ => ⟨hempty, habs⟩, fun _ => ⟨hempty, habs⟩, hsep⟩
    simp [Control.pending, Ops.isPending, hnone]

theorem kind_of_submitsPin {r : Request k} (hring : k = .ring → plainRing r.command = true)
    (h : r.command = setPinCommand p) : k = .setPin := by
  have hset : setsPin r.command = true := h ▸ setsPin_setPinCommand p
  rcases r.kind_of_setsPin hset with rfl | rfl
  · simp [plainRing, hset] at hring
  · rfl

theorem PinTracked.submit {q : Qcfg} {c : Control} {r : Request k} (hd : PinTracked obs q c)
    (hop : c.ops k = some { request := r }) (hring : k = .ring → plainRing r.command = true) :
    PinTracked (obs ++ [.submitted config st ⟨k, r⟩]) q
      { c with ops := Function.update c.ops k (some { request := r, state := .submitted }) } := by
  set c' : Control :=
    { c with ops := Function.update c.ops k (some { request := r, state := .submitted }) } with hc'
  have hself : c'.ops k = some ⟨r, .submitted⟩ := by simp [hc']
  have hne : ∀ {j}, j ≠ k → c'.ops j = c.ops j := fun hj => by simp [hc', hj]
  have hcons : ∀ j, c'.constructed j = c.constructed j := by
    intro j
    by_cases hj : j = k
    · subst hj; simp [Control.constructed, hself, hop]
    · exact Control.constructed_congr (hne hj)
  -- a PIN submitted now was not tried before
  have hfresh : ∀ p, submitsPin p (.submitted config st ⟨k, r⟩) = true →
      k = .setPin ∧ c.currentPin = p ∧ ¬ PinTried obs p := by
    intro p hp
    have hcmd : r.command = setPinCommand p := of_decide_eq_true hp
    obtain rfl := kind_of_submitsPin hring hcmd
    have hcur : r = .setPin c.currentPin := hd.op _ hop
    refine ⟨rfl, setPinCommand_injective ((congrArg Request.command hcur).symm.trans hcmd), ?_⟩
    intro ht
    have := (hd.tried p ht).2
    simp [Control.pending, Ops.isPending, hop] at this
  refine ⟨fun op h => ?_, fun p hp => ?_, fun h => ?_, fun h => ?_, fun p => ?_⟩
  · change op.request = .setPin c.currentPin
    by_cases hk : k = .setPin
    · subst hk
      rw [hself, Option.some.injEq] at h
      subst h
      exact hd.op { request := r } hop
    · rw [hne (Ne.symm hk)] at h
      exact hd.op op h
  · rcases Library.open_snoc.mp hp with hp | ⟨hp, -⟩
    · obtain ⟨rfl, hcur, -⟩ := hfresh p hp
      exact ⟨.inl hcur, by simp [Control.pending, Ops.isPending, hself]⟩
    · obtain ⟨hcur, hpend⟩ := hd.tried p hp
      refine ⟨hcur, ?_⟩
      by_cases hk : k = .setPin
      · subst hk
        simp [Control.pending, Ops.isPending, hself]
      · simpa [Control.pending, Ops.isPending, hne (Ne.symm hk)] using hpend
  · rw [hcons] at h ⊢
    exact hd.reboot h
  · rw [hcons]
    rcases Library.open_snoc.mp h with h | ⟨h, -⟩
    · cases h
    · exact hd.confirmed h
  · exact (hd.separated p).snoc fun hp => (hfresh p hp).2.2

/-- What a run keeps about the PIN. -/
structure PinRun (scan : Scanner) (h : List Obs) (d : Driver maxLineLen) : Prop where
  tracked : Tracked scan h d
  ring : d.RingHolds (plainRing · = true)
  pin : PinTracked h d.status.qcfg d.control

theorem PinTracked.apply (ht : Tracked scan obs d) (hring : d.RingHolds (plainRing · = true))
    (hd : PinTracked obs d.status.qcfg d.control) (he : d.PinKept scan (.apply config responses)) :
    PinTracked (obs ++ (system scan maxLineLen).obs d (.apply config responses))
      (d.apply scan config responses).1.status.qcfg (d.apply scan config responses).1.control := by
  have hpass := PinTracked.pass ht hring hd he
  rw [obs_apply]
  rcases apply_cases scan d config responses with
    ⟨hsub, hst, hc, -⟩ | ⟨k, r, hsub, hst, hc, -, hop, -⟩
  · rw [hsub, hst, hc, Option.toList_none, List.map_nil, ← List.append_assoc]
    exact hpass
  · have hq : ((d.received scan responses).commandSubmitted r.command).qcfg
        = (d.received scan responses).qcfg := by
      unfold Status.commandSubmitted; dsimp only; split <;> rfl
    have hplain : k = .ring → plainRing r.command = true := fun hk =>
      ring_submitted (s := ⟨k, r⟩) hring he.2.2 hsub hk
    rw [hsub, hst, hc, hq]
    simpa [passLog] using PinTracked.submit hpass hop hplain

theorem PinTracked.cancelCommand (hd : PinTracked obs d.status.qcfg d.control) :
    PinTracked (obs ++ (system scan maxLineLen).obs d .cancelCommand)
      d.cancelCommand.status.qcfg d.cancelCommand.control := by
  have hobs : ∀ o ∈ (system scan maxLineLen).obs d .cancelCommand, ∃ c, o = .canceled c := by
    intro o ho
    obtain ⟨c, -, rfl⟩ := List.mem_map.mp ho
    exact ⟨c, rfl⟩
  have hq : d.cancelCommand.status.qcfg = d.status.qcfg := by
    unfold Driver.cancelCommand
    cases d.status.pendingCommand <;> rfl
  have hcur : d.cancelCommand.control.currentPin = d.control.currentPin := by
    unfold Driver.cancelCommand
    cases d.status.pendingCommand <;> rfl
  have hcons : ∀ {k}, d.cancelCommand.control.constructed k → d.control.constructed k := by
    intro k h
    obtain ⟨op, hop⟩ := Control.constructed_iff.mp h
    exact Control.constructed_iff.mpr ⟨op, cancelCommand_ops hop⟩
  have hgone : d.control.constructed .setPin = false →
      d.cancelCommand.control.constructed .setPin = false := by
    intro h
    by_contra hc
    simp [hcons (by simpa using hc)] at h
  refine ⟨fun op h => hcur ▸ hd.op op (cancelCommand_ops h), fun p hp => ?_, fun h => ?_,
    fun h => ?_, fun p => ?_⟩
  · obtain ⟨hp, -⟩ := (Library.open_append fun o ho => by obtain ⟨c, rfl⟩ := hobs o ho; exact nofun).mp hp
    obtain ⟨htried, hpend⟩ := hd.tried p hp
    refine ⟨by rw [hcur, hq]; exact htried, ?_⟩
    by_contra hc
    obtain ⟨op, hop, hs⟩ := Control.pending_iff.mp (by simpa using hc)
    simp [Control.pending_iff.mpr ⟨op, cancelCommand_ops hop, hs⟩] at hpend
  · obtain ⟨hempty, habs⟩ := hd.reboot (hcons h)
    exact ⟨hcur.trans hempty, hgone habs⟩
  · rcases (Library.open_append_of_not_closing fun o ho => by
      obtain ⟨c, rfl⟩ := hobs o ho; exact nofun).mp h with h | ⟨o, ho, hc⟩
    · obtain ⟨hempty, habs⟩ := hd.confirmed h
      exact ⟨hcur.trans hempty, hgone habs⟩
    · obtain ⟨c, rfl⟩ := hobs o ho
      cases hc
  · exact (hd.separated p).append fun o ho => by obtain ⟨c, rfl⟩ := hobs o ho; exact nofun

theorem PinRun.next (h : PinRun scan obs d) (e : Event) (he : d.PinKept scan e) :
    PinRun scan (obs ++ (system scan maxLineLen).obs d e) ((system scan maxLineLen).next d e) := by
  have htext : RingText (plainRing · = true) e := by
    cases e with
    | apply config responses => exact he.2.2
    | _ => trivial
  refine ⟨h.tracked.next e, h.ring.next e htext, ?_⟩
  cases e with
  | apply config responses => exact PinTracked.apply h.tracked h.ring h.pin he
  | invalidateCallList => simpa using (List.append_nil obs).symm ▸ h.pin
  | cancelCommand => exact PinTracked.cancelCommand h.pin

/-- On every run along which no PIN is asked for as a reboot is commanded, no PIN
is submitted twice without a release in between; and once a reboot is confirmed,
a PIN asked for is taken up by the next pass that gets to the settings. -/
theorem pins_not_burnt (scan : Scanner) (maxLineLen : Nat)
    (settings : List (Qcfg.Name × Qcfg.Value)) (es : List Event)
    (h : (system scan maxLineLen).Along (PinKept scan) (init maxLineLen settings) es) :
    let d := (system scan maxLineLen).run (init maxLineLen settings) es
    let log := (system scan maxLineLen).log (init maxLineLen settings) es
    (∀ p, Separated (submitsPin p · = true) (releasesPin p · = true) log) ∧
      ∀ config responses,
        let st := d.received scan responses
        RebootConfirmed (log ++ lineObs scan d.status (d.linesOf responses)) →
        (d.control.completeOperation st).settingsReached st = true →
        Control.pinAsked st config = true →
        (d.control.pass st config).ops .setPin = some { request := .setPin config.pinValue } := by
  intro d log
  have hinit : PinRun scan [] (init maxLineLen settings) :=
    ⟨tracked_run settings [], ringHolds_init _ settings,
      ⟨nofun, fun p hp => absurd hp Library.not_open_nil, nofun,
        fun hp => absurd hp Library.not_open_nil, fun p => Library.separated_nil⟩⟩
  have hrun : PinRun scan log d := by
    simpa using System.log_invariant (S := system scan maxLineLen)
      (fun _ _ e h he => h.next e he) hinit h
  refine ⟨hrun.pin.separated, fun config responses hconf hreached hask => ?_⟩
  obtain ⟨hempty, habs⟩ := confirmed_of_lines hrun.tracked hrun.ring hrun.pin hconf
  refine Control.pass_setPin_of_asked hreached hask ?_ habs
  rintro hp
  simp [Control.pinAsked, hp, hempty] at hask

def usbnet : List (Qcfg.Name × Qcfg.Value) := [(.ofText 32 "usbnet".toList, .ofText 32 "1".toList)]

def pin4321 : Config := { pin := some "4321".toList }

/-- The modem comes up and asks for a PIN, and the settings take a reboot. -/
def rebooted (config : Config) : List Event :=
  [.apply config [], answer lineOk config, answer lineOk config,
    .apply config ["+CPIN: SIM PIN\r\nOK\r\n".toList],
    .apply config ["+QCFG: \"usbnet\",0\r\nOK\r\n".toList],
    answer lineOk config, answer lineOk config, answer lineOk config, answer lineRdy config,
    answer lineOk config]

theorem pin_entered_after_reboot :
    let d := (system plainScanner 64).run (init 64 usbnet) (rebooted {})
    (d.control.pass (d.received plainScanner ["+CPIN: SIM PIN\r\nOK\r\n".toList]) pin4321).ops .setPin
      = some { request := .setPin pin4321.pinValue } :=
  (pins_not_burnt plainScanner 64 usbnet (rebooted {}) (by decide +kernel)).2 pin4321
    ["+CPIN: SIM PIN\r\nOK\r\n".toList] (by decide +kernel) (by decide +kernel) (by decide +kernel)

/-- The modem refuses the PIN; the pass that commands the reboot submits it again. -/
def refusedPin : List Event :=
  [.apply pin4321 [], answer lineOk pin4321, answer lineOk pin4321,
    .apply pin4321 ["+CPIN: SIM PIN\r\nOK\r\n".toList],
    answer "+CME ERROR: 16".toList pin4321, answer lineOk pin4321,
    .apply pin4321 ["+CPIN: SIM PIN\r\nOK\r\n".toList],
    .apply pin4321 ["+QCFG: \"usbnet\",0\r\nOK\r\n".toList], answer lineOk pin4321]

theorem pin_submitted_twice :
    ¬ Separated (submitsPin pin4321.pinValue · = true) (releasesPin pin4321.pinValue · = true)
        ((system plainScanner 64).log (init 64 usbnet) refusedPin) :=
  Library.not_separated _ (by decide +kernel)

end Driver

end Allwinner.Modem
