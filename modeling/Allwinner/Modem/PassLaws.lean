import Allwinner.Modem.ControlLaws

/-!
# What one pass makes of a slot

For the operations that act for the user (dial, accept, ring, PIN): where an
operation found after a pass comes from. It was there before, or the pass
constructed it for the configuration at hand.
-/

namespace Allwinner.Modem.Control

variable {c c' : Control} {st : Status} {config : Config} {j k : Kind}

theorem completeOperation_ops (h : (c.completeOperation st).ops k = some op) : c.ops k = some op := by
  unfold completeOperation at h
  split at h
  · split at h
    · exact h
    · rename_i j hj
      by_cases hkj : k = j
      · subst hkj; simp at h
      · simpa [hkj] using h
  · exact h

/-- A pass stops in front of the settings, or does their work. -/
theorem pass_cases (c : Control) (st : Status) (config : Config) :
    Touches [.checkReady, .disableEcho] (c.completeOperation st) (c.pass st config) ∨
    (c.completeOperation st).settingsReached st ∧ ∃ c' : Control,
      Touches [.checkReady, .disableEcho] (c.completeOperation st) c' ∧
      c.pass st config = c'.applySettings st config := by
  cases h : (c.completeOperation st).settingsReached st with
  | false => exact .inl (touches_pass_of_not_reached config h)
  | true =>
    obtain ⟨c', he, ht⟩ := pass_of_reached config h
    exact .inr ⟨rfl, c', ht, he⟩

theorem applyQcfg_ops_some (hk : k ∉ [Kind.queryQcfg, .assignQcfg, .reboot])
    (h : (c.applyQcfg st st.qcfg).ops k = some op) : c.rebootDue st = false ∧ c.ops k = some op := by
  rw [applyQcfg_ops hk] at h
  split at h
  · cases h
  · rename_i hd
    exact ⟨by simpa using hd, h⟩

-- ---------------------------------------------------------------------------
-- Ring
-- ---------------------------------------------------------------------------

theorem applySettings_ring_cases (h : (c.applySettings st config).ops .ring = some op) :
    c.ops .ring = some op ∨
      ∃ t, config.ring = some t ∧ op = { request := .ring (Command.ofText t) } := by
  have hbefore : (c.beforeRing st config).ops .ring = (c.applyQcfg st st.qcfg).ops .ring := by
    rw [beforeRing_ops config (by decide), beforeCall_ops config (by decide)]
  rw [applySettings_eq] at h
  split at h
  · exact .inl (applyQcfg_ops_some (by decide) (hbefore ▸ h)).2
  · rename_i t ht
    unfold applyRing at h
    split at h
    · rw [construct_ops_self, Option.some.injEq] at h
      exact .inr ⟨t, ht, h.symm⟩
    · exact .inl (applyQcfg_ops_some (by decide) (hbefore ▸ h)).2

theorem pass_ring_cases (h : (c.pass st config).ops .ring = some op) :
    c.ops .ring = some op ∨
      ∃ t, config.ring = some t ∧ op = { request := .ring (Command.ofText t) } := by
  rcases pass_cases c st config with ht | ⟨-, c', ht, he⟩
  · exact .inl (completeOperation_ops ((ht.ops _ (by decide)).symm.trans h))
  · rw [he] at h
    exact (applySettings_ring_cases h).imp_left fun h =>
      completeOperation_ops ((ht.ops _ (by decide)).symm.trans h)

-- ---------------------------------------------------------------------------
-- Calls
-- ---------------------------------------------------------------------------

/-- Calls are initiated or accepted only with up-to-date current-call info. -/
def callsKnown (st : Status) : Bool := readyForTelephony st && st.clccUpToDate

/-- The outbound record of a call just dialed. -/
def dialedInfo (st : Status) (n : Number) : OutboundInfo :=
  { call := { number := n, stat := .dialing }, noCarrierCount := st.noCarrierCount }

/-- A dial operation is constructed only when idle, for an accepted node whose
number is not the outbound one, together with the record of that number. -/
theorem initiateCall_cases (c : Control) (st : Status) (node : CallNode) :
    c.initiateCall st node = c ∨
      st.currentCall = none ∧ node.accepted = true ∧ c.outbound node.numberValue = false ∧
      c.constructed .initiateCall = false ∧ c.initiateCall st node =
        { c.construct (.initiateCall node.numberValue) with
          outboundInfo := some (dialedInfo st node.numberValue) } := by
  unfold initiateCall
  dsimp only
  split
  · rename_i hcond
    obtain ⟨hidle, hacc, -, hout⟩ := hcond
    split
    · exact .inl rfl
    · rename_i hc
      exact .inr ⟨by simpa using hidle, hacc, by simpa using hout, by simpa using hc, rfl⟩
  · exact .inl rfl

/-- The record of number `n` is forgotten only for another number. -/
theorem outbound_forgetOtherNumber : (c.forgetOtherNumber n).outbound n = c.outbound n := by
  unfold forgetOtherNumber
  split
  · rename_i h
    cases hi : c.outboundInfo with
    | none => simp [outbound, hi]
    | some i =>
      have : i.call.number ≠ n := by simpa [hi] using h
      simp [outbound, hi, this]
  · rfl

theorem outbound_acceptIncomingCall (node : CallNode) :
    (c.acceptIncomingCall st node).outbound n = c.outbound n := by
  simp [outbound, (touches_acceptIncomingCall node).outboundInfo]

/-- The stages of `applyCall` in front of the dialing. -/
def beforeDial (st : Status) (node : CallNode) (c : Control) : Control :=
  ((c.noteListedCall st).acceptIncomingCall st node).forgetOtherNumber node.numberValue

theorem applyCall_eq (node : CallNode) : c.applyCall st node =
    if callsKnown st then (c.beforeDial st node).initiateCall st node else c := by
  unfold applyCall callsKnown beforeDial
  cases readyForTelephony st <;> cases st.clccUpToDate <;> simp

theorem beforeDial_ops (node : CallNode) :
    (c.beforeDial st node).ops .initiateCall = c.ops .initiateCall := by
  rw [beforeDial, forgetOtherNumber_ops, (touches_acceptIncomingCall node).ops _ (by decide),
    noteListedCall_ops]

theorem beforeDial_outbound (node : CallNode) :
    (c.beforeDial st node).outbound node.numberValue
      = (c.noteListedCall st).outbound node.numberValue := by
  rw [beforeDial, outbound_forgetOtherNumber, outbound_acceptIncomingCall]

theorem applyCall_initiateCall (node : CallNode)
    (h : (c.applyCall st node).ops .initiateCall = some op) :
    c.ops .initiateCall = some op ∨
      callsKnown st = true ∧ st.currentCall = none ∧ node.accepted = true ∧
      c.outbound node.numberValue = false ∧
      (c.applyCall st node).outbound node.numberValue = true ∧
      op = { request := .initiateCall node.numberValue } := by
  rw [applyCall_eq] at h ⊢
  split at h
  · rename_i hk
    rw [if_pos hk]
    rcases initiateCall_cases (c.beforeDial st node) st node with
      he | ⟨hidle, hacc, hout, -, he⟩
    · exact .inl (by rwa [he, beforeDial_ops] at h)
    · rw [he] at h ⊢
      have hnote : c.noteListedCall st = c := by simp [noteListedCall, hidle]
      rw [beforeDial_outbound, hnote] at hout
      refine .inr ⟨hk, hidle, hacc, hout, by simp [outbound, dialedInfo], ?_⟩
      exact (Option.some.inj ((construct_ops_self (c := c.beforeDial st node)).symm.trans h)).symm
  · exact .inl h

/-- The record of number `n` survives a listed call of the same number. -/
theorem outbound_applyCall (node : CallNode) (h : c.outbound node.numberValue = true)
    (hlisted : callsKnown st = true → ∀ call, st.currentCall = some call →
      call.number = node.numberValue) :
    (c.applyCall st node).outbound node.numberValue = true := by
  rw [applyCall_eq]
  split
  · rename_i hk
    have hnote : (c.noteListedCall st).outbound node.numberValue = true := by
      unfold noteListedCall
      cases hc : st.currentCall with
      | none => exact h
      | some call =>
        obtain ⟨i, hi, -⟩ := Option.any_eq_true _ _ |>.mp h
        simp [outbound, hi, hlisted hk call hc]
    rcases initiateCall_cases (c.beforeDial st node) st node with he | ⟨-, -, -, -, he⟩
    · rw [he, beforeDial_outbound, hnote]
    · simp [he, outbound, dialedInfo]
  · exact h

theorem acceptIncomingCall_ops (node : CallNode)
    (h : (c.acceptIncomingCall st node).ops .acceptCall = some op) :
    c.ops .acceptCall = some op ∨
      st.currentCall.any (·.incoming) = true ∧ node.accepted ∧ op = { request := .acceptCall } := by
  unfold acceptIncomingCall at h
  split at h
  · rename_i hcond
    rcases constructIfAbsent_ops_self (c := c) (r := .acceptCall) with ⟨he, -⟩ | ⟨he, -⟩
    · exact .inl (he ▸ h)
    · rw [he, Option.some.injEq] at h
      exact .inr ⟨hcond.1, hcond.2, h.symm⟩
  · exact .inl h

theorem applyCall_acceptCall (node : CallNode)
    (h : (c.applyCall st node).ops .acceptCall = some op) :
    c.ops .acceptCall = some op ∨
      callsKnown st = true ∧ st.currentCall.any (·.incoming) = true ∧ node.accepted = true ∧
      op = { request := .acceptCall } := by
  rw [applyCall_eq] at h
  split at h
  · rename_i hk
    have hinit : ((c.beforeDial st node).initiateCall st node).ops .acceptCall
        = (c.beforeDial st node).ops .acceptCall := by
      rcases initiateCall_cases (c.beforeDial st node) st node with he | ⟨-, -, -, -, he⟩
      · rw [he]
      · rw [he]
        change ((c.beforeDial st node).construct (.initiateCall node.numberValue)).ops .acceptCall = _
        exact construct_ops_of_ne (by decide)
    rw [hinit, beforeDial, forgetOtherNumber_ops] at h
    rcases acceptIncomingCall_ops node h with h | ⟨hin, hacc, hop⟩
    · exact .inl (noteListedCall_ops ▸ h)
    · exact .inr ⟨hk, hin, hacc, hop⟩
  · exact .inl h

/-- Nothing in front of the call node touches an operation for a call, unless a
due reboot cancels it. -/
theorem beforeCall_ops_some (hk : k = .initiateCall ∨ k = .acceptCall)
    (h : (c.beforeCall st config).ops k = some op) : c.ops k = some op := by
  rcases hk with rfl | rfl
  · rw [beforeCall_ops config (by decide)] at h
    exact (applyQcfg_ops_some (by decide) h).2
  · rw [beforeCall_ops config (by decide)] at h
    exact (applyQcfg_ops_some (by decide) h).2

theorem not_rejected_of_accepted {node : CallNode} (h : node.accepted = true) :
    node.hasState "rejected".toList = false := by
  unfold CallNode.accepted CallNode.hasState at *
  cases hs : node.state with
  | none => decide
  | some t =>
    simp only [hs, Option.isNone_some, Bool.false_or, decide_eq_true_eq] at h
    rw [h]
    decide

/-- With an accepted call node the hang-up logic leaves the outbound record alone. -/
theorem outboundInfo_beforeCall {node : CallNode} (hcall : config.call = some node)
    (hacc : node.accepted = true) : (c.beforeCall st config).outboundInfo = c.outboundInfo := by
  have hrej : config.call.any (·.hasState "rejected".toList) = false := by
    rw [hcall]
    exact not_rejected_of_accepted hacc
  have hangup (c : Control) : (c.applyHangUp st config).outboundInfo = c.outboundInfo := by
    have hinit : c.hangUpInitiated config = c := by
      unfold hangUpInitiated
      dsimp only
      rw [hrej, hcall]
      simp
    unfold applyHangUp
    rw [hinit, hrej]
    simp
  rw [beforeCall, touches_keepCallListUpToDate.outboundInfo, hangup,
    (touches_applyPower _).outboundInfo, (touches_applyPin _).outboundInfo, outboundInfo_applyQcfg]

/-- The ring logic leaves calls alone. -/
theorem applySettings_call (config : Config) (c : Control) :
    (c.applySettings st config).outboundInfo = (c.beforeRing st config).outboundInfo := by
  rw [applySettings_eq]
  split
  · rfl
  · exact (touches_applyRing _).outboundInfo

/-- A dial operation found after a pass was there before, or the pass answers to
an accepted call node of that number. -/
theorem pass_initiateCall (h : (c.pass st config).ops .initiateCall = some op) :
    c.ops .initiateCall = some op ∨
      ∃ node, config.call = some node ∧ callsKnown st = true ∧ st.currentCall = none ∧
        node.accepted = true ∧ c.outbound node.numberValue = false ∧
        (c.pass st config).outbound node.numberValue = true ∧
        op = { request := .initiateCall node.numberValue } := by
  rcases pass_cases c st config with ht | ⟨-, c', ht, he⟩
  · exact .inl (completeOperation_ops ((ht.ops _ (by decide)).symm.trans h))
  · have hback : c'.ops .initiateCall = some op → c.ops .initiateCall = some op := fun h =>
      completeOperation_ops ((ht.ops _ (by decide)).symm.trans h)
    have hinfo : c'.outboundInfo = c.outboundInfo :=
      ht.outboundInfo.trans touches_completeOperation.outboundInfo
    rw [he, applySettings_ops config (by decide), beforeRing] at h
    cases hcall : config.call with
    | none =>
      rw [hcall] at h
      exact .inl (hback (beforeCall_ops_some (.inl rfl) h))
    | some node =>
      rw [hcall] at h
      rcases applyCall_initiateCall node h with h | ⟨hk, hidle, hacc, hout, hnew, hop⟩
      · exact .inl (hback (beforeCall_ops_some (.inl rfl) h))
      · refine .inr ⟨node, rfl, hk, hidle, hacc, ?_, ?_, hop⟩
        · simpa [outbound, outboundInfo_beforeCall hcall hacc, hinfo] using hout
        · rw [he, outbound, applySettings_call, beforeRing, hcall]
          exact hnew

/-- The record of number `n` survives a pass for an accepted node of that number,
as long as the modem lists no call of another number. -/
theorem outbound_pass {node : CallNode} (hcall : config.call = some node)
    (hacc : node.accepted = true) (h : c.outbound node.numberValue = true)
    (hlisted : callsKnown st = true → ∀ call, st.currentCall = some call →
      call.number = node.numberValue) :
    (c.pass st config).outbound node.numberValue = true := by
  rcases pass_cases c st config with ht | ⟨-, c', ht, he⟩
  · simpa [outbound, ht.outboundInfo, touches_completeOperation.outboundInfo] using h
  · have hinfo : c'.outboundInfo = c.outboundInfo :=
      ht.outboundInfo.trans touches_completeOperation.outboundInfo
    rw [he, outbound, applySettings_call, beforeRing, hcall]
    refine outbound_applyCall node ?_ hlisted
    simpa [outbound, outboundInfo_beforeCall hcall hacc, hinfo] using h

/-- An accept operation found after a pass was there before, or the pass answers
to an accepted call node and an incoming call. -/
theorem pass_acceptCall (h : (c.pass st config).ops .acceptCall = some op) :
    c.ops .acceptCall = some op ∨
      ∃ node, config.call = some node ∧ callsKnown st = true ∧
        st.currentCall.any (·.incoming) = true ∧ node.accepted = true := by
  rcases pass_cases c st config with ht | ⟨-, c', ht, he⟩
  · exact .inl (completeOperation_ops ((ht.ops _ (by decide)).symm.trans h))
  · have hback : c'.ops .acceptCall = some op → c.ops .acceptCall = some op := fun h =>
      completeOperation_ops ((ht.ops _ (by decide)).symm.trans h)
    rw [he, applySettings_ops config (by decide), beforeRing] at h
    cases hcall : config.call with
    | none =>
      rw [hcall] at h
      exact .inl (hback (beforeCall_ops_some (.inr rfl) h))
    | some node =>
      rw [hcall] at h
      rcases applyCall_acceptCall node h with h | ⟨hk, hin, hacc, -⟩
      · exact .inl (hback (beforeCall_ops_some (.inr rfl) h))
      · exact .inr ⟨node, rfl, hk, hin, hacc⟩

-- ---------------------------------------------------------------------------
-- PIN
-- ---------------------------------------------------------------------------

/-- The modem asks for the SIM PIN, and the configuration has one. -/
def pinAsked (st : Status) (config : Config) : Bool :=
  st.cpin.any (·.chars = "SIM PIN".toList) && decide (config.pinValue.chars ≠ [])

theorem pinChanged_iff : c.pinChanged st config.pinValue = true ↔
    pinAsked st config = true ∧ config.pinValue ≠ c.currentPin := by
  simp [pinChanged, pinAsked, and_assoc]

/-- The PIN logic takes up a changed PIN, or keeps the PIN and at most gives up
the operation. -/
theorem applyPin_cases (c : Control) (st : Status) (pin : Pin) :
    (c.applyPin st pin).currentPin = c.currentPin ∧
        ((c.applyPin st pin).ops .setPin = c.ops .setPin ∨ (c.applyPin st pin).ops .setPin = none) ∨
      c.pinChanged st pin = true ∧ (c.applyPin st pin).currentPin = pin ∧
        (c.applyPin st pin).ops .setPin = some { request := .setPin pin } := by
  have ht : Touches [.requestPinState] c
      (c.destructIf (c.pinRequestFailed st .requestPinState) .requestPinState) :=
    .destructIf _ (by simp)
  have hd := ht.ops .setPin (by decide)
  unfold applyPin
  dsimp only
  split
  · exact .inl (by simp)
  · split
    · exact .inl (by simp [hd])
    · rename_i cpin hcpin
      split_ifs with hask hnone hsame
      · exact .inl (by simp [hd])
      · exact .inl (by simp [hd])
      · exact .inl (by simp [hd])
      · refine .inr ⟨?_, rfl, construct_ops_self⟩
        have hask : cpin.chars = "SIM PIN".toList := by simpa using hask
        simpa [pinChanged, hcpin, hask, hnone] using hsame

/-- What a pass does about PIN and reboot: it keeps the PIN and constructs
neither operation, or takes up a PIN the modem asks for, or commands a reboot,
with a `setPin` operation exactly if the modem asks for the PIN. -/
theorem pass_pin_cases (c : Control) (st : Status) (config : Config) :
    ((c.pass st config).currentPin = c.currentPin ∧
      (∀ op, (c.pass st config).ops .setPin = some op → c.ops .setPin = some op) ∧
      ((c.pass st config).constructed .reboot = true → c.constructed .reboot = true)) ∨
    ((c.pass st config).constructed .reboot = false ∧ st.qcfg.rebootNeeded = false ∧
      pinAsked st config = true ∧ config.pinValue ≠ c.currentPin ∧
      (c.pass st config).currentPin = config.pinValue ∧
      (c.pass st config).ops .setPin = some { request := .setPin config.pinValue }) ∨
    ((c.completeOperation st).settingsReached st = true ∧
      (c.completeOperation st).rebootDue st = true ∧
      (pinAsked st config = true → (c.pass st config).ops .setPin
        = some { request := .setPin config.pinValue } ∧
        (c.pass st config).currentPin = config.pinValue) ∧
      (pinAsked st config = false → (c.pass st config).ops .setPin = none ∧
        (c.pass st config).currentPin = .empty)) := by
  have hcur : (c.completeOperation st).currentPin = c.currentPin :=
    touches_completeOperation.currentPin
  rcases pass_cases c st config with ht | ⟨hreached, c', ht, he⟩
  · refine .inl ⟨ht.currentPin.trans hcur, fun op hop => ?_, fun hr => ?_⟩
    · exact completeOperation_ops ((ht.ops _ (by decide)).symm.trans hop)
    · rw [constructed_congr (ht.ops _ (by decide))] at hr
      obtain ⟨op, hop⟩ := constructed_iff.mp hr
      exact constructed_iff.mpr ⟨op, completeOperation_ops hop⟩
  · have hreboot : c'.constructed .reboot = false := by
      rw [constructed_congr (ht.ops .reboot (by decide))]
      simp only [settingsReached, Bool.and_eq_true, Bool.not_eq_true'] at hreached
      exact hreached.1.1
    have hdue : (c.completeOperation st).rebootDue st = c'.rebootDue st := by
      rw [rebootDue, rebootDue, constructed_congr (ht.ops .reboot (by decide))]
    obtain ⟨hop, hpin⟩ := applySettings_pin st config c'
    rw [he]
    cases hd : c'.rebootDue st with
    | true =>
      -- the reboot cancels everything in front of the PIN logic
      have hnone : (c'.applyQcfg st st.qcfg).ops .setPin = none := by
        rw [applyQcfg_ops (by decide), if_pos hd]
      have hempty : (c'.applyQcfg st st.qcfg).currentPin = .empty := by rw [applyQcfg_of_due hd]
      refine .inr (.inr ⟨hreached, hdue.trans hd, fun hask => ?_, fun hask => ?_⟩)
      · have hne : config.pinValue ≠ .empty := by
          rintro hp
          simp [pinAsked, hp] at hask
        have := applyPin_of_changed (pinChanged_iff.mpr ⟨hask, hempty ▸ hne⟩)
          (.inl (by simp [submitted, Ops.isSubmitted, hnone]))
        exact ⟨hop.trans this.2, hpin.trans this.1⟩
      · rcases applyPin_cases (c'.applyQcfg st st.qcfg) st config.pinValue with
          ⟨hkeep, hops⟩ | ⟨hchanged, -, -⟩
        · refine ⟨?_, hpin.trans (hkeep.trans hempty)⟩
          rcases hops with hops | hops
          · exact hop.trans (hops.trans hnone)
          · exact hop.trans hops
        · simp [(pinChanged_iff.mp hchanged).1] at hask
    | false =>
      have hq := touches_applyQcfg hd
      have hnone : (c'.applySettings st config).constructed .reboot = false := by
        rw [constructed_congr (c := c'), hreboot]
        rw [applySettings_ops config (by decide), beforeRing_ops config (by decide),
          beforeCall_ops config (by decide), hq.ops _ (by decide)]
      have hback : ∀ op, c'.ops .setPin = some op → c.ops .setPin = some op := fun op h =>
        completeOperation_ops ((ht.ops _ (by decide)).symm.trans h)
      have hsame : (c'.applyQcfg st st.qcfg).currentPin = c.currentPin :=
        hq.currentPin.trans (ht.currentPin.trans hcur)
      rcases applyPin_cases (c'.applyQcfg st st.qcfg) st config.pinValue with
        ⟨hkeep, hops⟩ | ⟨hchanged, hnew, hset⟩
      · refine .inl ⟨hpin.trans (hkeep.trans hsame), fun op h => ?_, by simp [hnone]⟩
        rw [hop] at h
        rcases hops with hops | hops
        · rw [hops, hq.ops _ (by decide)] at h
          exact hback op h
        · rw [hops] at h
          cases h
      · obtain ⟨hask, hne⟩ := pinChanged_iff.mp hchanged
        have hneed : st.qcfg.rebootNeeded = false := by simpa [rebootDue, hreboot] using hd
        exact .inr (.inl ⟨hnone, hneed, hask, hsame ▸ hne, hpin.trans hnew, hop.trans hset⟩)

/-- Asked for the PIN, a pass that gets to the settings constructs the operation,
unless that PIN was tried last. -/
theorem pass_setPin_of_asked (hreached : (c.completeOperation st).settingsReached st = true)
    (hask : pinAsked st config = true) (hne : config.pinValue ≠ c.currentPin)
    (habs : c.constructed .setPin = false) :
    (c.pass st config).ops .setPin = some { request := .setPin config.pinValue } := by
  obtain ⟨c', he, ht⟩ := pass_of_reached config hreached
  have hnone : c'.ops .setPin = none := by
    rw [ht.ops _ (by decide)]
    by_contra hop
    obtain ⟨op, hop⟩ := Option.ne_none_iff_exists'.mp hop
    simp [constructed_iff.mpr ⟨op, completeOperation_ops hop⟩] at habs
  have hcur : c'.currentPin = c.currentPin := ht.currentPin.trans touches_completeOperation.currentPin
  rw [he, (applySettings_pin st config c').1]
  have hset : (c'.applyQcfg st st.qcfg).ops .setPin = none := by
    rw [applyQcfg_ops (by decide), hnone, ite_self]
  refine (applyPin_of_changed (pinChanged_iff.mpr ⟨hask, ?_⟩)
    (.inl (by simp [submitted, Ops.isSubmitted, hset]))).2
  cases hd : c'.rebootDue st with
  | true =>
    rw [applyQcfg_of_due hd]
    rintro hp
    simp [pinAsked, hp] at hask
  | false => rwa [(touches_applyQcfg hd).currentPin, hcur]

end Allwinner.Modem.Control
