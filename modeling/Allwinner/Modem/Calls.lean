import Allwinner.Modem.Submissions

/-!
# Calls

A dial or accept operation is decided on when it is constructed and submitted
later, under another configuration and another call list. What the user asked
for is what happens exactly as far as the operation left pending still fits.
-/

namespace Allwinner.Modem

open Library (System)

variable {scan : Scanner} {maxLineLen : Nat}

-- ---------------------------------------------------------------------------
-- Commands
-- ---------------------------------------------------------------------------

theorem dialCommand_chars (n : Number) :
    (dialCommand n).chars = "ATD".toList ++ n.chars ++ ";".toList := by
  refine Str.chars_ofText ?_ ?_
  · have := n.noNul
    simp [this]
  · have := n.fits
    simp only [List.length_append]
    change 3 + _ + 1 ≤ 255
    omega

theorem dialCommand_injective {n m : Number} (h : dialCommand n = dialCommand m) : n = m := by
  have hc := congrArg Str.chars h
  rw [dialCommand_chars, dialCommand_chars] at hc
  exact Str.ext' (List.append_cancel_left (List.append_cancel_right hc))

/-- A command that the modem takes as dialing. -/
def dials (c : Command) : Bool := c.startsWith "ATD".toList

theorem dials_dialCommand (n : Number) : dials (dialCommand n) = true := by
  rw [dials, Str.startsWith_iff, dialCommand_chars, List.append_assoc]
  exact List.prefix_append _ _

theorem Request.kind_of_dials (r : Request k) (h : dials r.command = true) :
    k = .ring ∨ k = .initiateCall := by
  have hp := Str.startsWith_iff.mp h
  have hv := r.verb_prefix_or hp
  have hc := (r.verb_of_command rfl).2
  cases k with
  | checkReady => rw [hc rfl] at hp; exact absurd hp (by decide)
  | ring => exact .inl rfl
  | initiateCall => exact .inr rfl
  | _ => exact absurd hv (by decide)

theorem Request.kind_of_accept (r : Request k) (h : r.command.chars = atAcceptCall) :
    k = .ring ∨ k = .acceptCall := by
  obtain ⟨hv, hc⟩ := r.verb_of_command h
  cases k <;> revert hv hc <;> decide

-- ---------------------------------------------------------------------------
-- No call without request
-- ---------------------------------------------------------------------------

/-- The configuration asks for a call of number `n`. -/
def Config.requests (config : Config) (n : Number) : Bool :=
  config.call.any fun node =>
    node.accepted && node.number.any fun t => decide (Str.ofText 50 t = n)

theorem Config.requests_iff {config : Config} {n : Number} : config.requests n = true ↔
    ∃ node, config.call = some node ∧ node.accepted = true ∧
      ∃ t, node.number = some t ∧ Str.ofText 50 t = n := by
  simp [requests, Option.any_eq_true]

theorem Config.numberValue_of_requests {config : Config} {n : Number} (h : config.requests n = true) :
    ∃ node, config.call = some node ∧ node.accepted = true ∧ node.numberValue = n := by
  obtain ⟨node, hcall, hacc, t, ht, hn⟩ := Config.requests_iff.mp h
  exact ⟨node, hcall, hacc, by simpa [CallNode.numberValue, attributeValue, ht] using hn⟩

/-- The number of the dial operation that is still to be submitted. -/
def Control.pendingDial (c : Control) : Option Number :=
  match c.ops .initiateCall with
  | some ⟨.initiateCall n, .pending⟩ => some n
  | _ => none

theorem Control.pendingDial_iff {c : Control} :
    c.pendingDial = some n ↔ c.ops .initiateCall = some { request := .initiateCall n } := by
  unfold pendingDial
  split
  · rename_i m h
    simp [h]
  · rename_i h
    exact ⟨nofun, fun hop => absurd hop (h n)⟩

namespace Driver

variable {d : Driver maxLineLen} {config : Config} {responses : List Text}

/-- A dial operation left pending is still asked for, an accepted node meets an
idle modem only with a number, and no ring command dials. -/
def DialAskedFor (scan : Scanner) (d : Driver maxLineLen) : Event → Prop
  | .apply config responses =>
    let st := d.received scan responses
    (∀ n ∈ d.control.pendingDial, config.requests n = true) ∧
    (∀ node ∈ config.call, node.accepted = true → Control.callsKnown st = true →
      st.currentCall = none → node.number ≠ none) ∧
    ∀ t ∈ config.ring, dials (Command.ofText t) = false
  | .invalidateCallList => True
  | .cancelCommand => True

instance (d : Driver maxLineLen) : DecidablePred (DialAskedFor scan d)
  | .apply config responses => inferInstanceAs (Decidable (
      (∀ n ∈ d.control.pendingDial, config.requests n = true) ∧
      (∀ node ∈ config.call, node.accepted = true →
        Control.callsKnown (d.received scan responses) = true →
        (d.received scan responses).currentCall = none → node.number ≠ none) ∧
      ∀ t ∈ config.ring, dials (Command.ofText t) = false))
  | .invalidateCallList => isTrue trivial
  | .cancelCommand => isTrue trivial

theorem dialRequested_apply (h : d.RingHolds (dials · = false))
    (hc : d.DialAskedFor scan (.apply config responses))
    (hs : (d.apply scan config responses).2 = some s) (hn : s.command = dialCommand n) :
    config.requests n = true := by
  obtain ⟨hpending, hnumber, hring⟩ := hc
  have hdials : dials s.command = true := hn ▸ dials_dialCommand n
  rcases s.request.kind_of_dials hdials with hk | hk
  · have : dials s.command = false := ring_submitted h hring hs hk
    simp [hdials] at this
  · obtain ⟨kind, r⟩ := s
    subst hk
    cases r with | initiateCall m =>
    obtain rfl := dialCommand_injective hn
    rcases Control.pass_initiateCall (submission_ops hs) with
      hop | ⟨node, hcall, hknown, hidle, hacc, -, -, hop⟩
    · exact hpending m (Control.pendingDial_iff.mpr hop)
    · obtain ⟨t, ht⟩ := Option.ne_none_iff_exists'.mp (hnumber node hcall hacc hknown hidle)
      simp only [Operation.mk.injEq, Request.initiateCall.injEq, and_true] at hop
      exact Config.requests_iff.mpr ⟨node, hcall, hacc, t, ht,
        by simp [hop, CallNode.numberValue, attributeValue, ht]⟩

/-- On every run along which a pending dial operation stays asked for, a dial
command is submitted only under a configuration that asks for its number. -/
theorem dial_requested (scan : Scanner) (maxLineLen : Nat)
    (settings : List (Qcfg.Name × Qcfg.Value)) (es : List Event)
    (h : (system scan maxLineLen).Along (DialAskedFor scan) (init maxLineLen settings) es) :
    ∀ config st s n, .submitted config st s ∈ (system scan maxLineLen).log (init maxLineLen settings) es →
      s.command = dialCommand n → config.requests n = true := by
  have hring : ∀ {d : Driver maxLineLen} {e}, DialAskedFor scan d e →
      RingText (dials · = false) e := by
    intro d e he
    cases e with
    | apply config responses => exact he.2.2
    | _ => trivial
  have hall := submitted_forall (I := RingHolds (dials · = false))
    (Q := fun config _ s => ∀ n, s.command = dialCommand n → config.requests n = true)
    (fun d e hd he => hd.next e (hring he))
    (fun d config responses s hd he hs n hn => dialRequested_apply hd he hs hn)
    (ringHolds_init _ settings) h
  exact fun config st s n ho => hall config st s ho n

/-- The configuration that asks for a call of the number `n`. -/
def callTo (n : Number) : Config := { call := some { number := some n.chars } }

def number123 : Number := Str.ofText 50 "123".toList

theorem dial_requested_once :
    (system plainScanner 64).Along (DialAskedFor plainScanner) (init 64 [])
      (startup ++ [answer lineOk, .apply (callTo number123) []]) ∧
    ∀ config st s n, .submitted config st s ∈ (system plainScanner 64).log (init 64 [])
        (startup ++ [answer lineOk, .apply (callTo number123) []]) →
      s.command = dialCommand n → config.requests n = true := by
  have h : (system plainScanner 64).Along (DialAskedFor plainScanner) (init 64 [])
      (startup ++ [answer lineOk, .apply (callTo number123) []]) := by decide
  exact ⟨h, dial_requested plainScanner 64 [] _ h⟩

/-- The modem is commanded to power down under a call node; the node is removed,
and the number is dialed after `ATH`. -/
def removedCall : List Event :=
  startup ++ [answer lineOk, .apply { callTo number123 with power := some "off".toList } [],
    answer lineOk, answer lineOk, answer lineOk]

theorem dial_without_request :
    ¬ ∀ config st s n, .submitted config st s ∈ (system plainScanner 64).log (init 64 []) removedCall →
      s.command = dialCommand n → config.requests n = true := by
  intro h
  have hlog : ((system plainScanner 64).log (init 64 []) removedCall).any
      (Obs.submits fun config _ s => decide (s.command = dialCommand number123) &&
        !config.requests number123) = true := by
    decide
  obtain ⟨config, st, s, ho, hs⟩ := Obs.exists_submitted hlog
  simp only [Bool.and_eq_true, decide_eq_true_eq, Bool.not_eq_true'] at hs
  simp [h config st s number123 ho hs.1] at hs

-- ---------------------------------------------------------------------------
-- No automatic redial
-- ---------------------------------------------------------------------------

/-- A configuration applied asks for a call of number `n`. -/
def AsksFor (n : Number) : Event → Prop
  | .apply config _ => config.requests n = true
  | .invalidateCallList => True
  | .cancelCommand => True

instance : DecidablePred (AsksFor n)
  | .apply config _ => inferInstanceAs (Decidable (config.requests n = true))
  | .invalidateCallList => isTrue trivial
  | .cancelCommand => isTrue trivial

/-- The observation is the dialing of number `n`. -/
def dialsNumber (n : Number) : Obs → Bool :=
  Obs.submits fun _ _ s => decide (s.command = dialCommand n)

/-- While number `n` is on record as the outbound one, the modem lists its call
under that number. -/
def ListedAs (scan : Scanner) (n : Number) (d : Driver maxLineLen) : Event → Prop
  | .apply _ responses =>
    let st := d.received scan responses
    d.control.outbound n = true → Control.callsKnown st = true →
      ∀ call ∈ st.currentCall, call.number = n
  | .invalidateCallList => True
  | .cancelCommand => True

instance (d : Driver maxLineLen) : DecidablePred (ListedAs scan n d)
  | .apply _ responses => inferInstanceAs (Decidable (
      d.control.outbound n = true → Control.callsKnown (d.received scan responses) = true →
        ∀ call ∈ (d.received scan responses).currentCall, call.number = n))
  | .invalidateCallList => isTrue trivial
  | .cancelCommand => isTrue trivial

/-- After `count` submissions: a dial operation still pending has its number on
record, and none is pending after the first submission. -/
def DialedOnce (n : Number) (count : Nat) (d : Driver maxLineLen) : Prop :=
  count = 0 ∧ (d.control.pendingDial = some n → d.control.outbound n = true) ∨
    count = 1 ∧ d.control.outbound n = true ∧ d.control.pendingDial ≠ some n

theorem outbound_kept (hreq : config.requests n = true)
    (hlisted : ListedAs scan n d (.apply config responses)) (h : d.control.outbound n = true) :
    (d.control.pass (d.received scan responses) config).outbound n = true := by
  obtain ⟨node, hcall, hacc, rfl⟩ := Config.numberValue_of_requests hreq
  exact Control.outbound_pass hcall hacc h (hlisted h)

/-- A dial operation that a pass adds puts its number on record. -/
theorem pendingDial_pass
    (h : (d.control.pass (d.received scan responses) config).pendingDial = some n) :
    d.control.pendingDial = some n ∨ d.control.outbound n = false ∧
      (d.control.pass (d.received scan responses) config).outbound n = true := by
  rcases Control.pass_initiateCall (Control.pendingDial_iff.mp h) with
    hop | ⟨node, -, -, -, -, hout, hnew, hop⟩
  · exact .inl (Control.pendingDial_iff.mpr hop)
  · simp only [Operation.mk.injEq, Request.initiateCall.injEq, and_true] at hop
    subst hop
    exact .inr ⟨hout, hnew⟩

theorem outbound_apply : (d.apply scan config responses).1.control.outbound n =
    (d.control.pass (d.received scan responses) config).outbound n := by
  rcases apply_cases scan d config responses with ⟨-, -, hc, -⟩ | ⟨k, r, -, -, hc, -⟩
  · rw [hc]
  · rw [hc]; rfl

/-- After an `apply` a dial operation is pending if it was so after the pass, and
was not submitted. -/
theorem pendingDial_apply (h : (d.apply scan config responses).1.control.pendingDial = some n) :
    (d.control.pass (d.received scan responses) config).pendingDial = some n ∧
      ∀ s, (d.apply scan config responses).2 = some s → s.kind ≠ .initiateCall := by
  have hop := Control.pendingDial_iff.mp h
  rcases apply_cases scan d config responses with ⟨hs, -, hc, -⟩ | ⟨k, r, hs, -, hc, -⟩
  · rw [hc] at hop
    exact ⟨Control.pendingDial_iff.mpr hop, by simp [hs]⟩
  · rw [hc] at hop
    by_cases hk : k = .initiateCall
    · subst hk; simp at hop
    · refine ⟨Control.pendingDial_iff.mpr (by simpa [Ne.symm hk] using hop), fun s he => ?_⟩
      rw [hs, Option.some.injEq] at he
      subst he
      exact hk

theorem DialedOnce.of_frame {d' : Driver maxLineLen} (h : DialedOnce n count d)
    (ho : d'.control.outbound n = d.control.outbound n)
    (hp : d'.control.pendingDial = some n → d.control.pendingDial = some n) :
    DialedOnce n count d' := by
  rcases h with ⟨h0, hrec⟩ | ⟨h1, hout, hnone⟩
  · exact .inl ⟨h0, fun h => ho.trans (hrec (hp h))⟩
  · exact .inr ⟨h1, ho.trans hout, fun h => hnone (hp h)⟩

theorem DialedOnce.apply (h : DialedOnce n count d) (hring : d.RingHolds (dials · = false))
    (htext : ∀ t ∈ config.ring, dials (Command.ofText t) = false)
    (hreq : config.requests n = true) (hlisted : ListedAs scan n d (.apply config responses)) :
    DialedOnce n (count + ((system scan maxLineLen).obs d (.apply config responses)).countP
      (dialsNumber n)) (d.apply scan config responses).1 := by
  have hlines : ∀ ls (s : Status), (lineObs scan s ls).countP (dialsNumber n) = 0 := by
    intro ls
    induction ls with
    | nil => intro s; rfl
    | cons l ls ih => intro s; simpa [lineObs, dialsNumber, Obs.submits] using ih _
  have hcount : ((system scan maxLineLen).obs d (.apply config responses)).countP (dialsNumber n) =
      if (d.apply scan config responses).2.any (·.command = dialCommand n) then 1 else 0 := by
    rw [obs_apply, List.countP_append, hlines]
    cases (d.apply scan config responses).2 <;>
      simp [dialsNumber, Obs.submits, List.countP_cons]
  -- a dial operation pending after the pass is the first one, and on record
  have hpass : (d.control.pass (d.received scan responses) config).pendingDial = some n →
      count = 0 ∧ (d.apply scan config responses).1.control.outbound n = true := by
    intro hp
    rw [outbound_apply]
    rcases h with ⟨h0, hrec⟩ | ⟨-, hout, hnone⟩
    · rcases pendingDial_pass hp with hp | ⟨-, hnew⟩
      · exact ⟨h0, outbound_kept hreq hlisted (hrec hp)⟩
      · exact ⟨h0, hnew⟩
    · rcases pendingDial_pass hp with hp | ⟨hout', -⟩
      · exact absurd hp hnone
      · simp [hout] at hout'
  rw [hcount]
  split
  · rename_i hany
    obtain ⟨s, hs, hn⟩ := (Option.any_eq_true _ _).mp hany
    have hn : s.command = dialCommand n := by simpa using hn
    have hdials : dials s.command = true := hn ▸ dials_dialCommand n
    rcases s.request.kind_of_dials hdials with hk | hk
    · have : dials s.command = false := ring_submitted hring htext hs hk
      simp [hdials] at this
    · obtain ⟨kind, r⟩ := s
      subst hk
      cases r with | initiateCall m =>
      obtain rfl := dialCommand_injective hn
      obtain ⟨h0, hout⟩ := hpass (Control.pendingDial_iff.mpr (submission_ops hs))
      refine .inr ⟨by omega, hout, fun hp => ?_⟩
      exact (pendingDial_apply hp).2 _ hs rfl
  · rw [Nat.add_zero]
    rcases h with ⟨h0, -⟩ | ⟨h1, hout, -⟩
    · exact .inl ⟨h0, fun hp => (hpass (pendingDial_apply hp).1).2⟩
    · refine .inr ⟨h1, outbound_apply.trans (outbound_kept hreq hlisted hout), fun hp => ?_⟩
      have := (hpass (pendingDial_apply hp).1).1
      omega

theorem DialedOnce.next (h : DialedOnce n count d) (hring : d.RingHolds (dials · = false))
    (htext : RingText (dials · = false) e) (hreq : AsksFor n e) (hlisted : ListedAs scan n d e) :
    DialedOnce n (count + ((system scan maxLineLen).obs d e).countP (dialsNumber n))
      ((system scan maxLineLen).next d e) := by
  cases e with
  | apply config responses => exact h.apply hring htext hreq hlisted
  | invalidateCallList => exact h
  | cancelCommand =>
    have hobs : ((system scan maxLineLen).obs d .cancelCommand).countP (dialsNumber n) = 0 := by
      change (d.status.pendingCommand.toList.map Obs.canceled).countP (dialsNumber n) = 0
      cases d.status.pendingCommand <;> rfl
    rw [hobs]
    refine h.of_frame ?_ fun hp =>
      Control.pendingDial_iff.mpr (cancelCommand_ops (Control.pendingDial_iff.mp hp))
    change d.cancelCommand.control.outbound n = _
    unfold cancelCommand
    cases d.status.pendingCommand <;> rfl

/-- While the configuration keeps asking for a call of number `n`, the number is
dialed at most once. -/
theorem no_redial (scan : Scanner) (maxLineLen : Nat) (settings : List (Qcfg.Name × Qcfg.Value))
    (before segment : List Event) (n : Number)
    (hring : ∀ e ∈ before ++ segment, RingText (dials · = false) e)
    (hsegment : ∀ e ∈ segment, AsksFor n e) :
    let d := (system scan maxLineLen).run (init maxLineLen settings) before
    (d.control.pendingDial = some n → d.control.outbound n = true) →
      (system scan maxLineLen).Along (ListedAs scan n) d segment →
      ((system scan maxLineLen).log d segment).countP (dialsNumber n) ≤ 1 := by
  intro d hstart hlisted
  have hd : d.RingHolds (dials · = false) :=
    System.run_invariant (C := fun _ e => RingText (dials · = false) e) (fun d e hd he => hd.next e he)
      (ringHolds_init _ settings)
      ((System.along_of_forall fun _ _ => trivial).and_forall (C := fun _ _ => True)
        (fun e he => hring e (by simp [he])) |>.mono fun _ _ h => h.2)
  have hrun := System.log_invariant (S := system scan maxLineLen)
    (I := fun log d => RingHolds (dials · = false) d ∧ DialedOnce n (log.countP (dialsNumber n)) d)
    (C := fun d e => (ListedAs scan n d e ∧ RingText (dials · = false) e) ∧ AsksFor n e)
    (fun log d e h he => ⟨h.1.next e he.1.2,
      by simpa using h.2.next h.1 he.1.2 he.2 he.1.1⟩)
    (h := []) ⟨hd, .inl ⟨rfl, hstart⟩⟩
    ((hlisted.and_forall fun e he => hring e (by simp [he])).and_forall hsegment)
  rcases hrun.2 with ⟨h0, -⟩ | ⟨h1, -⟩
  · simp only [List.nil_append] at h0
    omega
  · simp only [List.nil_append] at h1
    omega

/-- The call is listed with the number in national format, and ends. -/
def callEnds (listed : Text) : List Event :=
  [.apply (callTo number123) [], answer lineOk (callTo number123),
    .apply (callTo number123) ["+CLCC: 1,0,0,0,0,\"".toList ++ listed ++ "\",1\r\nOK\r\n".toList],
    answer lineNoCarrier (callTo number123), answer lineOk (callTo number123),
    answer lineOk (callTo number123)]

theorem no_redial_listed :
    ((system plainScanner 64).log ((system plainScanner 64).run (init 64 []) (startup ++ [answer lineOk]))
      (callEnds "123".toList)).countP (dialsNumber number123) ≤ 1 :=
  no_redial plainScanner 64 [] (startup ++ [answer lineOk]) (callEnds "123".toList) number123
    (by decide) (by decide) (by decide) (by decide +kernel)

/-- Listed under another format of its number, the call is dialed again. -/
theorem redial_after_other_format :
    ¬ ((system plainScanner 64).log
        ((system plainScanner 64).run (init 64 []) (startup ++ [answer lineOk]))
        (callEnds "+49123".toList)).countP (dialsNumber number123) ≤ 1 := by
  decide +kernel

-- ---------------------------------------------------------------------------
-- No unintended pick-up
-- ---------------------------------------------------------------------------

end Driver

/-- The configuration has an accepted call node, and an incoming call is listed,
under the node's number if it has one. -/
def Config.answers (config : Config) (st : Status) : Bool :=
  config.call.any fun node => node.accepted &&
    st.currentCall.any fun call => call.incoming &&
      (node.number.isNone || decide (node.numberValue = call.number))

namespace Driver

variable {d : Driver maxLineLen} {config : Config} {responses : List Text}

/-- An accept operation left pending still answers the incoming call, an accepted
node meets an incoming call only if it names no other number, and no ring command
accepts a call. -/
def AcceptFits (scan : Scanner) (d : Driver maxLineLen) : Event → Prop
  | .apply config responses =>
    let st := d.received scan responses
    (d.control.pending .acceptCall = true → config.answers st = true) ∧
    (Control.callsKnown st = true → st.currentCall.any (·.incoming) = true →
      config.call.any (·.accepted) = true → config.answers st = true) ∧
    ∀ t ∈ config.ring, (Command.ofText t).chars ≠ atAcceptCall
  | .invalidateCallList => True
  | .cancelCommand => True

instance (d : Driver maxLineLen) : DecidablePred (AcceptFits scan d)
  | .apply config responses => inferInstanceAs (Decidable (
      (d.control.pending .acceptCall = true → config.answers (d.received scan responses) = true) ∧
      (Control.callsKnown (d.received scan responses) = true →
        (d.received scan responses).currentCall.any (·.incoming) = true →
        config.call.any (·.accepted) = true → config.answers (d.received scan responses) = true) ∧
      ∀ t ∈ config.ring, (Command.ofText t).chars ≠ atAcceptCall))
  | .invalidateCallList => isTrue trivial
  | .cancelCommand => isTrue trivial

theorem accept_apply (h : d.RingHolds (·.chars ≠ atAcceptCall))
    (hc : d.AcceptFits scan (.apply config responses))
    (hs : (d.apply scan config responses).2 = some s) (hn : s.command.chars = atAcceptCall) :
    config.answers (d.received scan responses) = true := by
  obtain ⟨hpending, hnew, hring⟩ := hc
  rcases s.request.kind_of_accept hn with hk | hk
  · exact absurd hn (ring_submitted h hring hs hk)
  · obtain ⟨kind, r⟩ := s
    subst hk
    rcases Control.pass_acceptCall (submission_ops hs) with hop | ⟨node, hcall, hknown, hin, hacc⟩
    · exact hpending (Control.pending_iff.mpr ⟨_, hop, rfl⟩)
    · exact hnew hknown hin (by simp [hcall, hacc])

/-- On every run along which the accept operation fits the call, a call is picked
up only for a configuration that accepts it. -/
theorem accept_requested (scan : Scanner) (maxLineLen : Nat)
    (settings : List (Qcfg.Name × Qcfg.Value)) (es : List Event)
    (h : (system scan maxLineLen).Along (AcceptFits scan) (init maxLineLen settings) es) :
    ∀ config st s, .submitted config st s ∈ (system scan maxLineLen).log (init maxLineLen settings) es →
      s.command.chars = atAcceptCall → config.answers st = true := by
  have hring : ∀ {d : Driver maxLineLen} {e}, AcceptFits scan d e →
      RingText (·.chars ≠ atAcceptCall) e := by
    intro d e he
    cases e with
    | apply config responses => exact he.2.2
    | _ => trivial
  exact submitted_forall (I := RingHolds (·.chars ≠ atAcceptCall))
    (fun d e hd he => hd.next e (hring he))
    (fun d config responses s hd he hs hn => accept_apply hd he hs hn)
    (ringHolds_init _ settings) h

/-- The modem lists an incoming call of number `5` under a configuration. -/
def incomingUnder (config : Config) : List Event :=
  startup ++ [.apply config ["+CLCC: 1,0,4,0,0,\"5\",1\r\nOK\r\n".toList]]

theorem accept_requested_call :
    (system plainScanner 64).Along (AcceptFits plainScanner) (init 64 []) (incomingUnder { call := some {} }) ∧
    ∀ config st s, .submitted config st s ∈ (system plainScanner 64).log (init 64 [])
        (incomingUnder { call := some {} }) →
      s.command.chars = atAcceptCall → config.answers st = true := by
  have h : (system plainScanner 64).Along (AcceptFits plainScanner) (init 64 [])
      (incomingUnder { call := some {} }) := by decide
  exact ⟨h, accept_requested plainScanner 64 [] _ h⟩

/-- A request to call number `123` picks up the call of number `5`. -/
theorem accept_of_other_number :
    ¬ ∀ config st s, .submitted config st s ∈ (system plainScanner 64).log (init 64 [])
        (incomingUnder (callTo number123)) →
      s.command.chars = atAcceptCall → config.answers st = true := by
  intro h
  have hlog : ((system plainScanner 64).log (init 64 []) (incomingUnder (callTo number123))).any
      (Obs.submits fun config st s => decide (s.command.chars = atAcceptCall) &&
        !config.answers st) = true := by
    decide
  obtain ⟨config, st, s, ho, hs⟩ := Obs.exists_submitted hlog
  simp only [Bool.and_eq_true, decide_eq_true_eq, Bool.not_eq_true'] at hs
  simp [h config st s ho hs.1] at hs

end Driver

end Allwinner.Modem
