import Allwinner.Modem.Control

/-!
# What one pass does to the operations

A pass leaves an operation as it is, destructs it, or puts a fresh one in its
place; it never changes the state of an operation. The frame lemmas say which
kinds each function of the pass can touch.
-/

namespace Allwinner.Modem.Control

variable {c c' c'' : Control} {st : Status} {j k : Kind}

-- ---------------------------------------------------------------------------
-- Slots
-- ---------------------------------------------------------------------------

theorem submitted_iff : c.submitted k = true ↔ ∃ op, c.ops k = some op ∧ op.state = .submitted := by
  simp [submitted, Ops.isSubmitted, Option.any_eq_true]

theorem pending_iff : c.pending k = true ↔ ∃ op, c.ops k = some op ∧ op.state = .pending := by
  simp [pending, Ops.isPending, Option.any_eq_true]

theorem constructed_iff : c.constructed k = true ↔ ∃ op, c.ops k = some op := by
  simp [constructed, Option.isSome_iff_exists]

@[simp] theorem constructed_fresh : ({} : Control).constructed k = false := rfl
@[simp] theorem submitted_fresh : ({} : Control).submitted k = false := rfl

theorem constructed_of_submitted (h : c.submitted k) : c.constructed k := by
  obtain ⟨op, hop, -⟩ := submitted_iff.mp h
  exact constructed_iff.mpr ⟨op, hop⟩

/-- An operation is pending or submitted. -/
theorem constructed_cases (h : c.constructed k) : c.pending k ∨ c.submitted k := by
  obtain ⟨op, hop⟩ := constructed_iff.mp h
  cases hs : op.state with
  | pending => exact .inl (pending_iff.mpr ⟨op, hop, hs⟩)
  | submitted => exact .inr (submitted_iff.mpr ⟨op, hop, hs⟩)

theorem not_submitted_of_pending (h : c.pending k) : ¬ c.submitted k := by
  obtain ⟨op, hop, hs⟩ := pending_iff.mp h
  simp [submitted, Ops.isSubmitted, hop, hs]

theorem constructed_congr (h : c'.ops k = c.ops k) : c'.constructed k = c.constructed k := by
  simp [constructed, h]

@[simp] theorem construct_ops_self {r : Request k} :
    (c.construct r).ops k = some { request := r } := by
  simp [construct]

@[simp] theorem construct_ops_of_ne {r : Request k} (h : j ≠ k) :
    (c.construct r).ops j = c.ops j := by
  simp [construct, h]

@[simp] theorem destruct_ops_self : (c.destruct k).ops k = none := by simp [destruct]

@[simp] theorem destruct_ops_of_ne (h : j ≠ k) : (c.destruct k).ops j = c.ops j := by
  simp [destruct, h]

@[simp] theorem construct_currentPin {r : Request k} : (c.construct r).currentPin = c.currentPin := rfl
@[simp] theorem destruct_currentPin : (c.destruct k).currentPin = c.currentPin := rfl
@[simp] theorem construct_outboundInfo {r : Request k} :
    (c.construct r).outboundInfo = c.outboundInfo := rfl
@[simp] theorem destruct_outboundInfo : (c.destruct k).outboundInfo = c.outboundInfo := rfl
@[simp] theorem construct_currentRingCount {r : Request k} :
    (c.construct r).currentRingCount = c.currentRingCount := rfl
@[simp] theorem destruct_currentRingCount :
    (c.destruct k).currentRingCount = c.currentRingCount := rfl

@[simp] theorem constructIfAbsent_ops_of_ne {r : Request k} (h : j ≠ k) :
    (c.constructIfAbsent r).ops j = c.ops j := by
  unfold constructIfAbsent; split <;> simp [h]

@[simp] theorem constructIfAbsent_currentPin {r : Request k} :
    (c.constructIfAbsent r).currentPin = c.currentPin := by
  unfold constructIfAbsent; split <;> rfl

@[simp] theorem constructIfAbsent_outboundInfo {r : Request k} :
    (c.constructIfAbsent r).outboundInfo = c.outboundInfo := by
  unfold constructIfAbsent; split <;> rfl

@[simp] theorem constructIfAbsent_currentRingCount {r : Request k} :
    (c.constructIfAbsent r).currentRingCount = c.currentRingCount := by
  unfold constructIfAbsent; split <;> rfl

theorem constructIfAbsent_ops_self {r : Request k} :
    (c.constructIfAbsent r).ops k = c.ops k ∧ c.constructed k
      ∨ (c.constructIfAbsent r).ops k = some { request := r } ∧ ¬ c.constructed k := by
  unfold constructIfAbsent; split <;> simp_all

@[simp] theorem conditional_ops_of_ne {r : Request k} (h : j ≠ k) :
    (c.conditional b r).ops j = c.ops j := by
  unfold conditional; split_ifs <;> simp [h]

@[simp] theorem conditional_currentPin {r : Request k} :
    (c.conditional b r).currentPin = c.currentPin := by
  unfold conditional; split_ifs <;> rfl

@[simp] theorem conditional_outboundInfo {r : Request k} :
    (c.conditional b r).outboundInfo = c.outboundInfo := by
  unfold conditional; split_ifs <;> rfl

@[simp] theorem conditional_currentRingCount {r : Request k} :
    (c.conditional b r).currentRingCount = c.currentRingCount := by
  unfold conditional; split_ifs <;> rfl

/-- After `conditional` the operation is there if and only if the condition holds. -/
theorem conditional_constructed {r : Request k} : (c.conditional b r).constructed k = b := by
  unfold conditional
  split_ifs <;> simp_all [constructed]

-- ---------------------------------------------------------------------------
-- Renewal
-- ---------------------------------------------------------------------------

/-- Every operation of `c'` is one of `c`, or fresh. -/
def Renews (c c' : Control) : Prop :=
  ∀ k, c'.ops k = c.ops k ∨ c'.ops k = none ∨ ∃ r, c'.ops k = some { request := r }

theorem Renews.refl (c : Control) : Renews c c := fun _ => .inl rfl

theorem Renews.trans (h : Renews c c') (h' : Renews c' c'') : Renews c c'' := by
  intro k
  rcases h' k with h' | h' | h'
  · rw [h']; exact h k
  · exact .inr (.inl h')
  · exact .inr (.inr h')

theorem Renews.of_ops_eq (h : c'.ops = c.ops) : Renews c c' := fun k => .inl (congrFun h k)

theorem renews_construct (r : Request k) : Renews c (c.construct r) := by
  intro j
  by_cases h : j = k
  · subst h; exact .inr (.inr ⟨r, construct_ops_self⟩)
  · exact .inl (construct_ops_of_ne h)

theorem renews_destruct (k : Kind) : Renews c (c.destruct k) := by
  intro j
  by_cases h : j = k
  · subst h; exact .inr (.inl destruct_ops_self)
  · exact .inl (destruct_ops_of_ne h)

theorem renews_constructIfAbsent (r : Request k) : Renews c (c.constructIfAbsent r) := by
  unfold constructIfAbsent
  split
  · exact .refl c
  · exact renews_construct r

theorem renews_conditional (r : Request k) : Renews c (c.conditional b r) := by
  unfold conditional
  split
  · split
    · exact .refl c
    · exact renews_construct r
  · exact renews_destruct k

theorem Renews.ite {p : Prop} [Decidable p] {a b : Control} (ha : Renews c a) (hb : Renews c b) :
    Renews c (if p then a else b) := by
  split
  · exact ha
  · exact hb

/-- A submitted operation was so before. -/
theorem Renews.submitted (h : Renews c c') (hs : c'.submitted k) :
    c'.ops k = c.ops k ∧ c.submitted k := by
  obtain ⟨op, hop, hst⟩ := submitted_iff.mp hs
  rcases h k with he | he | ⟨r, he⟩
  · exact ⟨he, submitted_iff.mpr ⟨op, he ▸ hop, hst⟩⟩
  · rw [he] at hop; cases hop
  · rw [he, Option.some.injEq] at hop; subst hop; cases hst

theorem renews_completeOperation : Renews c (c.completeOperation st) := by
  unfold completeOperation
  split
  · split
    · exact .refl c
    · exact renews_destruct _
  · exact .refl c

theorem renews_destructIf (b : Bool) (k : Kind) : Renews c (c.destructIf b k) :=
  .ite (renews_destruct k) (.refl c)

theorem renews_queryUnknown (q : Qcfg) : Renews c (c.queryUnknown st q) := by
  refine (renews_destructIf (c.submitted .queryQcfg && st.error) .queryQcfg).trans ?_
  unfold queryUnknown
  dsimp only
  split
  · exact .refl _
  · split
    · exact .refl _
    · exact renews_construct _

theorem renews_assignMismatching (q : Qcfg) : Renews c (c.assignMismatching q) := by
  unfold assignMismatching
  split
  · exact .refl c
  · split
    · exact .refl c
    · exact renews_construct _

theorem renews_rebootIfNeeded (q : Qcfg) : Renews c (c.rebootIfNeeded q) := by
  unfold rebootIfNeeded
  split
  · have hc : Renews c c.cancelAllOperations := fun _ => .inr (.inl rfl)
    exact (hc.trans (renews_construct .reboot)).trans (.of_ops_eq rfl)
  · exact .refl c

theorem renews_applyQcfg (q : Qcfg) : Renews c (c.applyQcfg st q) :=
  ((renews_queryUnknown q).trans (renews_assignMismatching q)).trans (renews_rebootIfNeeded q)

theorem renews_applyPin (pin : Pin) : Renews c (c.applyPin st pin) := by
  refine (renews_destructIf (c.pinRequestFailed st .requestPinState) .requestPinState).trans ?_
  unfold applyPin
  dsimp only
  split
  · exact (renews_destruct _).trans (renews_constructIfAbsent _)
  · split
    · exact renews_constructIfAbsent _
    · refine .ite (.refl _) (.ite (.refl _) (.ite (.refl _) ?_))
      exact (Renews.of_ops_eq rfl).trans (renews_construct _)

theorem renews_applyPower (power : Power) : Renews c (c.applyPower st power) :=
  (renews_destructIf (c.submitted .powerDown && st.error) .powerDown).trans (.ite (renews_constructIfAbsent _) (.refl _))

theorem renews_hangUpInitiated (config : Config) : Renews c (c.hangUpInitiated config) :=
  .ite ((Renews.of_ops_eq rfl).trans (renews_construct _)) (.refl c)

theorem renews_applyHangUp (config : Config) : Renews c (c.applyHangUp st config) := by
  have hc : Renews c (c.hangUpInitiated config) := renews_hangUpInitiated config
  exact .ite (.refl c) (.ite (hc.trans (renews_construct _)) hc)

theorem renews_keepCallListUpToDate : Renews c (c.keepCallListUpToDate st) := by
  unfold keepCallListUpToDate
  exact .ite (.refl c) (.ite (renews_destruct _) (renews_constructIfAbsent _))

theorem noteListedCall_ops : (c.noteListedCall st).ops = c.ops := by
  unfold noteListedCall; split <;> rfl

theorem forgetOtherNumber_ops (n : Number) : (c.forgetOtherNumber n).ops = c.ops := by
  unfold forgetOtherNumber; split <;> rfl

theorem renews_acceptIncomingCall (node : CallNode) : Renews c (c.acceptIncomingCall st node) :=
  .ite (renews_constructIfAbsent _) (.refl c)

theorem renews_initiateCall (node : CallNode) : Renews c (c.initiateCall st node) := by
  unfold initiateCall
  exact .ite (.ite (.refl c) ((renews_construct _).trans (.of_ops_eq rfl))) (.refl c)

theorem renews_applyCall (node : CallNode) : Renews c (c.applyCall st node) := by
  unfold applyCall
  refine .ite (.refl c) (.ite (.refl c) ?_)
  exact (((Renews.of_ops_eq noteListedCall_ops).trans (renews_acceptIncomingCall node)).trans
    (.of_ops_eq (forgetOtherNumber_ops _))).trans (renews_initiateCall node)

theorem renews_applyRing (ring : Text) : Renews c (c.applyRing st ring) := by
  unfold applyRing
  exact .ite ((Renews.of_ops_eq rfl).trans (renews_construct _)) (.refl c)

-- ---------------------------------------------------------------------------
-- Submitted operations
-- ---------------------------------------------------------------------------

/-- The settings call for the reboot that cancels all operations. -/
def rebootDue (st : Status) (c : Control) : Bool := !c.constructed .reboot && st.qcfg.rebootNeeded

/-- The modem asks for a PIN, and the configured one was not tried last. -/
def pinChanged (st : Status) (pin : Pin) (c : Control) : Bool :=
  st.cpin.any (·.chars = "SIM PIN".toList) && decide (pin.chars ≠ [] ∧ pin ≠ c.currentPin)

/-- `_apply_config` gets behind its guards. -/
def settingsReached (st : Status) (c : Control) : Bool :=
  !c.constructed .reboot && st.rdy && st.echoDisabled

/-- `applySettings` gives up a submitted operation of kind `k`. -/
def drops (st : Status) (config : Config) (c : Control) (k : Kind) : Bool :=
  c.rebootDue st || match k with
    | .queryQcfg => st.error
    | .powerDown => st.error
    | .requestPinState => st.cmeError.isSome
    | .setPin => st.cmeError.isSome || c.pinChanged st config.pinValue
    | .requestCallList => readyForTelephony st && st.clccUpToDate
    | .ring => config.ring.isSome && decide (c.currentRingCount ≠ st.ringCount)
    | _ => false

theorem submitted_congr (h : c'.ops = c.ops) : c'.submitted j = c.submitted j := by
  simp [submitted, h]

@[simp] theorem submitted_construct {r : Request k} :
    (c.construct r).submitted j = (c.submitted j && decide (j ≠ k)) := by
  by_cases h : j = k
  · subst h; simp [submitted, Ops.isSubmitted]
  · simp [submitted, Ops.isSubmitted, h]

@[simp] theorem submitted_destruct :
    (c.destruct k).submitted j = (c.submitted j && decide (j ≠ k)) := by
  by_cases h : j = k
  · subst h; simp [submitted, Ops.isSubmitted]
  · simp [submitted, Ops.isSubmitted, h]

@[simp] theorem submitted_destructIf :
    (c.destructIf b k).submitted j = (c.submitted j && !(b && decide (j = k))) := by
  cases b <;> simp [destructIf]

/-- An absent operation is not submitted, nor is the one constructed for it. -/
@[simp] theorem submitted_constructIfAbsent {r : Request k} :
    (c.constructIfAbsent r).submitted j = c.submitted j := by
  unfold constructIfAbsent
  split
  · rfl
  · rename_i hk
    rw [submitted_construct]
    by_cases h : j = k
    · subst h
      have : c.submitted j = false := by
        by_contra hs
        exact hk (constructed_of_submitted (by simpa using hs))
      simp [this]
    · simp [h]

@[simp] theorem submitted_conditional {r : Request k} :
    (c.conditional b r).submitted j = (c.submitted j && (b || decide (j ≠ k))) := by
  have h : c.conditional b r = if b then c.constructIfAbsent r else c.destruct k := rfl
  rw [h]
  cases b <;> simp

theorem submitted_queryUnknown (q : Qcfg) :
    (c.queryUnknown st q).submitted j = (c.submitted j && !(decide (j = .queryQcfg) && st.error)) := by
  have h : c.queryUnknown st q =
      let c := c.destructIf (c.submitted .queryQcfg && st.error) .queryQcfg
      q.anyUnknownEntry.elim c fun e => c.constructIfAbsent (.queryQcfg e.name) := by
    unfold queryUnknown constructIfAbsent
    cases q.anyUnknownEntry <;> simp
  rw [h]
  by_cases hj : j = .queryQcfg
  · subst hj
    cases q.anyUnknownEntry <;> cases hs : c.submitted .queryQcfg <;> simp [hs]
  · cases q.anyUnknownEntry <;> simp [hj]

theorem submitted_assignMismatching (q : Qcfg) :
    (c.assignMismatching q).submitted j = c.submitted j := by
  have h : c.assignMismatching q = q.anyMismatchingEntry.elim c fun e =>
      c.constructIfAbsent (.assignQcfg e.name e.value) := by
    unfold assignMismatching constructIfAbsent
    cases q.anyMismatchingEntry <;> simp
  rw [h]
  cases q.anyMismatchingEntry <;> simp

theorem submitted_rebootIfNeeded (q : Qcfg) : (c.rebootIfNeeded q).submitted j =
    (c.submitted j && !(!c.constructed .reboot && q.rebootNeeded)) := by
  unfold rebootIfNeeded
  split
  · rename_i h
    have hc : (c.cancelAllOperations.construct .reboot).submitted j = false := by
      rw [submitted_construct]
      simp [submitted, Ops.isSubmitted, cancelAllOperations]
    exact hc.trans (by simp [h])
  · rename_i h
    cases hc : c.constructed .reboot <;> simp_all

@[simp] theorem constructed_destructIf_of_ne {b : Bool} (h : j ≠ k) :
    (c.destructIf b k).constructed j = c.constructed j := by
  cases b <;> simp [destructIf, constructed, h]

theorem constructed_reboot_queryUnknown (q : Qcfg) :
    (c.queryUnknown st q).constructed .reboot = c.constructed .reboot := by
  unfold queryUnknown
  dsimp only
  split
  · simp
  · split
    · simp
    · simp [constructed, destructIf]; split <;> simp

theorem constructed_reboot_assignMismatching (q : Qcfg) :
    (c.assignMismatching q).constructed .reboot = c.constructed .reboot := by
  unfold assignMismatching
  split
  · rfl
  · split
    · rfl
    · simp [constructed]

theorem submitted_applyQcfg : (c.applyQcfg st st.qcfg).submitted j =
    (c.submitted j && !(c.rebootDue st || (decide (j = .queryQcfg) && st.error))) := by
  rw [applyQcfg, submitted_rebootIfNeeded, submitted_assignMismatching, submitted_queryUnknown,
    constructed_reboot_assignMismatching, constructed_reboot_queryUnknown, rebootDue]
  cases c.submitted j <;> simp [Bool.and_comm]

@[simp] theorem destructIf_currentPin {b : Bool} : (c.destructIf b k).currentPin = c.currentPin := by
  cases b <;> rfl

theorem submitted_applyPin (pin : Pin) : (c.applyPin st pin).submitted j =
    (c.submitted j && !(match j with
      | .requestPinState => st.cmeError.isSome
      | .setPin => st.cmeError.isSome || c.pinChanged st pin
      | _ => false)) := by
  have hsub : ∀ j, (c.destructIf (c.pinRequestFailed st .requestPinState) .requestPinState).submitted j
      = (c.submitted j && !(st.cmeError.isSome && decide (j = .requestPinState))) := by
    intro j
    by_cases h : j = .requestPinState
    · subst h; cases hs : c.submitted .requestPinState <;> simp [pinRequestFailed, hs]
    · simp [h]
  have hpin : (c.destructIf (c.pinRequestFailed st .requestPinState) .requestPinState).currentPin
      = c.currentPin := destructIf_currentPin
  unfold applyPin
  dsimp only
  generalize c.destructIf (c.pinRequestFailed st .requestPinState) .requestPinState = c₁ at hsub hpin
  split
  · rename_i hf
    have hf : c.submitted .setPin = true ∧ st.cmeError.isSome = true := by
      simpa [pinRequestFailed, hsub] using hf
    cases j <;> simp [hsub, hf]
  · rename_i hf
    have hf : c.submitted .setPin = true → st.cmeError.isSome = false := by
      simpa [pinRequestFailed, hsub] using hf
    have hkept (h : c.pinChanged st pin = false) : c₁.submitted j = (c.submitted j && !(match j with
        | .requestPinState => st.cmeError.isSome
        | .setPin => st.cmeError.isSome || c.pinChanged st pin
        | _ => false)) := by
      cases j <;> simp [hsub, h]
      exact fun hs => by simpa using hf hs
    split
    · rename_i hcpin
      rw [submitted_constructIfAbsent, hkept (by simp [pinChanged, hcpin])]
    · rename_i cpin hcpin
      split_ifs with hask hnone hsame
      · exact hkept (by simp only [pinChanged, hcpin, Option.any_some, hask, decide_false, Bool.false_and])
      · exact hkept (by simp [pinChanged, hnone])
      · exact hkept (by simp [pinChanged, hpin ▸ hsame])
      · have hch : c.pinChanged st pin = true := by
          simp only [pinChanged, hcpin, Option.any_some]
          simp_all
        have hcur : ({ c₁ with currentPin := pin } : Control).submitted j = c₁.submitted j := rfl
        rw [submitted_construct, hcur, hsub]
        cases j <;> simp [hch]

theorem submitted_applyPower (power : Power) : (c.applyPower st power).submitted j =
    (c.submitted j && !(decide (j = .powerDown) && st.error)) := by
  have hsub : (c.destructIf (c.submitted .powerDown && st.error) .powerDown).submitted j
      = (c.submitted j && !(decide (j = .powerDown) && st.error)) := by
    by_cases h : j = .powerDown
    · subst h; cases hs : c.submitted .powerDown <;> simp [hs]
    · simp [h]
  unfold applyPower
  dsimp only
  split
  · rw [submitted_constructIfAbsent, hsub]
  · exact hsub

/-- A hang-up is constructed only where there is none. -/
theorem submitted_applyHangUp (config : Config) :
    (c.applyHangUp st config).submitted j = c.submitted j := by
  unfold applyHangUp
  split
  · rfl
  · rename_i habs
    have hfresh (c' : Control) (hc : c'.submitted j = c.submitted j) :
        (c'.construct .hangUp).submitted j = c.submitted j := by
      rw [submitted_construct, hc]
      by_cases h : j = .hangUp
      · subst h
        have : c.submitted .hangUp = false := by
          by_contra hs
          exact habs (constructed_of_submitted (by simpa using hs))
        simp [this]
      · simp [h]
    have hinit : (c.hangUpInitiated config).submitted j = c.submitted j := by
      unfold hangUpInitiated
      dsimp only
      split
      · exact hfresh _ rfl
      · rfl
    dsimp only
    split
    · exact hfresh _ hinit
    · exact hinit

theorem submitted_keepCallListUpToDate : (c.keepCallListUpToDate st).submitted j =
    (c.submitted j &&
      !(decide (j = .requestCallList) && (readyForTelephony st && st.clccUpToDate))) := by
  unfold keepCallListUpToDate
  split_ifs <;> simp_all

theorem submitted_applyCall (node : CallNode) :
    (c.applyCall st node).submitted j = c.submitted j := by
  have haccept (c : Control) : (c.acceptIncomingCall st node).submitted j = c.submitted j := by
    unfold acceptIncomingCall; split <;> simp
  have hinit (c : Control) : (c.initiateCall st node).submitted j = c.submitted j := by
    unfold initiateCall
    dsimp only
    split
    · rename_i h
      have hc : (if c.constructed .initiateCall then c
          else c.construct (.initiateCall node.numberValue)).submitted j = c.submitted j :=
        submitted_constructIfAbsent
      split
      · rfl
      · rename_i habs
        rwa [if_neg habs] at hc
    · rfl
  unfold applyCall
  split
  · rfl
  · split
    · rfl
    · dsimp only
      rw [hinit, submitted_congr (forgetOtherNumber_ops _), haccept,
        submitted_congr noteListedCall_ops]

theorem submitted_applyRing (ring : Text) : (c.applyRing st ring).submitted j =
    (c.submitted j && !(decide (j = .ring) && decide (c.currentRingCount ≠ st.ringCount))) := by
  unfold applyRing
  split
  · rename_i h
    have hcur : ({ c with currentRingCount := st.ringCount } : Control).submitted j
        = c.submitted j := rfl
    rw [submitted_construct, hcur]
    simp [h]
  · rename_i h
    simp [h]

@[simp] theorem submitted_cancelCommand : c.cancelCommand.submitted j = false := by
  have hops : c.cancelCommand.ops j = if c.submitted j then none else c.ops j := rfl
  rw [submitted, Ops.isSubmitted, hops]
  cases h : c.submitted j with
  | false => exact h
  | true => rfl

theorem constructed_cancelCommand :
    c.cancelCommand.constructed j = (c.constructed j && !c.submitted j) := by
  have hops : c.cancelCommand.ops j = if c.submitted j then none else c.ops j := rfl
  rw [constructed, hops]
  cases c.submitted j <;> simp [constructed]

-- ---------------------------------------------------------------------------
-- Frames
-- ---------------------------------------------------------------------------

/-- Only operations of the kinds `ks` differ. -/
structure Touches (ks : List Kind) (c c' : Control) : Prop where
  ops : ∀ k ∉ ks, c'.ops k = c.ops k
  currentPin : c'.currentPin = c.currentPin
  currentRingCount : c'.currentRingCount = c.currentRingCount
  outboundInfo : c'.outboundInfo = c.outboundInfo

namespace Touches

variable {ks : List Kind}

theorem refl (ks : List Kind) (c : Control) : Touches ks c c := ⟨fun _ _ => rfl, rfl, rfl, rfl⟩

theorem trans (h : Touches ks c c') (h' : Touches ks c' c'') : Touches ks c c'' where
  ops k hk := (h'.ops k hk).trans (h.ops k hk)
  currentPin := h'.currentPin.trans h.currentPin
  currentRingCount := h'.currentRingCount.trans h.currentRingCount
  outboundInfo := h'.outboundInfo.trans h.outboundInfo

theorem ite {p : Prop} [Decidable p] {a b : Control} (ha : Touches ks c a) (hb : Touches ks c b) :
    Touches ks c (if p then a else b) := by
  split
  · exact ha
  · exact hb

theorem construct (r : Request k) (hk : k ∈ ks) : Touches ks c (c.construct r) where
  ops j hj := construct_ops_of_ne (by rintro rfl; exact hj hk)
  currentPin := rfl
  currentRingCount := rfl
  outboundInfo := rfl

theorem destruct (hk : k ∈ ks) : Touches ks c (c.destruct k) where
  ops j hj := destruct_ops_of_ne (by rintro rfl; exact hj hk)
  currentPin := rfl
  currentRingCount := rfl
  outboundInfo := rfl

theorem destructIf (b : Bool) (hk : k ∈ ks) : Touches ks c (c.destructIf b k) :=
  .ite (.destruct hk) (.refl ks c)

theorem constructIfAbsent (r : Request k) (hk : k ∈ ks) : Touches ks c (c.constructIfAbsent r) :=
  .ite (.refl ks c) (.construct r hk)

theorem conditional (b : Bool) (r : Request k) (hk : k ∈ ks) : Touches ks c (c.conditional b r) :=
  .ite (.constructIfAbsent r hk) (.destruct hk)

end Touches

theorem touches_queryUnknown (q : Qcfg) : Touches [.queryQcfg] c (c.queryUnknown st q) := by
  have hd : Touches [.queryQcfg] c
      (c.destructIf (c.submitted .queryQcfg && st.error) .queryQcfg) := .destructIf _ (by simp)
  refine hd.trans ?_
  unfold queryUnknown
  dsimp only
  split
  · exact .refl _ _
  · split
    · exact .refl _ _
    · exact .construct _ (by simp)

theorem touches_assignMismatching (q : Qcfg) : Touches [.assignQcfg] c (c.assignMismatching q) := by
  unfold assignMismatching
  split
  · exact .refl _ _
  · split
    · exact .refl _ _
    · exact .construct _ (by simp)

theorem touches_applyPin (pin : Pin) : Touches [.requestPinState, .setPin, .requestPinCount]
    { c with currentPin := (c.applyPin st pin).currentPin } (c.applyPin st pin) := by
  have hd : Touches [.requestPinState, .setPin, .requestPinCount] c
      (c.destructIf (c.pinRequestFailed st .requestPinState) .requestPinState) :=
    .destructIf _ (by simp)
  have key : ∀ {c'}, Touches [.requestPinState, .setPin, .requestPinCount] c c' →
      Touches [.requestPinState, .setPin, .requestPinCount] { c with currentPin := c'.currentPin } c' :=
    fun h => ⟨h.ops, rfl, h.currentRingCount, h.outboundInfo⟩
  unfold applyPin
  dsimp only
  split
  · exact key (hd.trans ((Touches.destruct (by simp)).trans (.constructIfAbsent _ (by simp))))
  · split
    · exact key (hd.trans (.constructIfAbsent _ (by simp)))
    · split_ifs
      · exact key hd
      · exact key hd
      · exact key hd
      · exact ⟨fun k hk => (construct_ops_of_ne (by rintro rfl; simp at hk)).trans (hd.ops k hk),
          rfl, hd.currentRingCount, hd.outboundInfo⟩

theorem touches_applyPower (power : Power) : Touches [.powerDown] c (c.applyPower st power) := by
  unfold applyPower
  exact (Touches.destructIf _ (by simp)).trans (.ite (.constructIfAbsent _ (by simp)) (.refl _ _))

theorem touches_applyHangUp (config : Config) : Touches [.hangUp]
    { c with outboundInfo := (c.applyHangUp st config).outboundInfo } (c.applyHangUp st config) := by
  have hinit : Touches [.hangUp] { c with outboundInfo := (c.hangUpInitiated config).outboundInfo }
      (c.hangUpInitiated config) := by
    unfold hangUpInitiated
    dsimp only
    split
    · exact .construct _ (by simp)
    · exact .refl _ _
  unfold applyHangUp
  dsimp only
  split_ifs
  · exact .refl _ _
  · exact hinit.trans (.construct _ (by simp))
  · exact hinit

theorem touches_keepCallListUpToDate : Touches [.requestCallList] c (c.keepCallListUpToDate st) := by
  unfold keepCallListUpToDate
  exact .ite (.refl _ _) (.ite (.destruct (by simp)) (.constructIfAbsent _ (by simp)))

theorem touches_acceptIncomingCall (node : CallNode) :
    Touches [.acceptCall] c (c.acceptIncomingCall st node) :=
  .ite (.constructIfAbsent _ (by simp)) (.refl _ _)

theorem touches_applyCall (node : CallNode) : Touches [.acceptCall, .initiateCall]
    { c with outboundInfo := (c.applyCall st node).outboundInfo } (c.applyCall st node) := by
  have key : ∀ {c'}, (∀ k ∉ [Kind.acceptCall, .initiateCall], c'.ops k = c.ops k) →
      c'.currentPin = c.currentPin → c'.currentRingCount = c.currentRingCount →
      Touches [.acceptCall, .initiateCall] { c with outboundInfo := c'.outboundInfo } c' :=
    fun ho hp hr => ⟨ho, hp, hr, rfl⟩
  have hlisted : (c.noteListedCall st).currentPin = c.currentPin ∧
      (c.noteListedCall st).currentRingCount = c.currentRingCount := by
    unfold noteListedCall; split <;> exact ⟨rfl, rfl⟩
  have haccept : Touches [.acceptCall] (c.noteListedCall st)
      ((c.noteListedCall st).acceptIncomingCall st node) := touches_acceptIncomingCall node
  have hforget (c : Control) : (c.forgetOtherNumber node.numberValue).currentPin = c.currentPin ∧
      (c.forgetOtherNumber node.numberValue).currentRingCount = c.currentRingCount := by
    unfold forgetOtherNumber; split <;> exact ⟨rfl, rfl⟩
  have hinit (c : Control) : (∀ k ≠ .initiateCall, (c.initiateCall st node).ops k = c.ops k) ∧
      (c.initiateCall st node).currentPin = c.currentPin ∧
      (c.initiateCall st node).currentRingCount = c.currentRingCount := by
    unfold initiateCall
    dsimp only
    split_ifs
    · exact ⟨fun _ _ => rfl, rfl, rfl⟩
    · exact ⟨fun k hk => construct_ops_of_ne hk, rfl, rfl⟩
    · exact ⟨fun _ _ => rfl, rfl, rfl⟩
  unfold applyCall
  split
  · exact key (fun _ _ => rfl) rfl rfl
  · split
    · exact key (fun _ _ => rfl) rfl rfl
    · refine key (fun k hk => ?_) ?_ ?_
      · simp only [List.mem_cons, List.not_mem_nil, or_false, not_or] at hk
        rw [(hinit _).1 k hk.2, forgetOtherNumber_ops, haccept.ops k (by simp [hk.1]),
          noteListedCall_ops]
      · rw [(hinit _).2.1, (hforget _).1, haccept.currentPin, hlisted.1]
      · rw [(hinit _).2.2, (hforget _).2, haccept.currentRingCount, hlisted.2]

theorem touches_applyRing (ring : Text) : Touches [.ring]
    { c with currentRingCount := (c.applyRing st ring).currentRingCount } (c.applyRing st ring) := by
  unfold applyRing
  split
  · exact .construct _ (by simp)
  · exact .refl _ _

-- ---------------------------------------------------------------------------
-- The settings, stage by stage
-- ---------------------------------------------------------------------------

/-- The stages of `applySettings` in front of the call node. -/
def beforeCall (st : Status) (config : Config) (c : Control) : Control :=
  ((((c.applyQcfg st st.qcfg).applyPin st config.pinValue).applyPower st config.powerValue).applyHangUp
    st config).keepCallListUpToDate st

/-- The stages up to the call node. -/
def beforeRing (st : Status) (config : Config) (c : Control) : Control :=
  match config.call with
  | none => c.beforeCall st config
  | some node => (c.beforeCall st config).applyCall st node

theorem applySettings_eq (config : Config) : c.applySettings st config =
    match config.ring with
    | none => c.beforeRing st config
    | some ring => (c.beforeRing st config).applyRing st ring := rfl

theorem renews_beforeCall (config : Config) : Renews c (c.beforeCall st config) :=
  ((((renews_applyQcfg _).trans (renews_applyPin _)).trans (renews_applyPower _)).trans
    (renews_applyHangUp _)).trans renews_keepCallListUpToDate

theorem renews_beforeRing (config : Config) : Renews c (c.beforeRing st config) := by
  unfold beforeRing
  split
  · exact renews_beforeCall config
  · exact (renews_beforeCall config).trans (renews_applyCall _)

theorem renews_applySettings (config : Config) : Renews c (c.applySettings st config) := by
  rw [applySettings_eq]
  split
  · exact renews_beforeRing config
  · exact (renews_beforeRing config).trans (renews_applyRing _)

theorem renews_applyConfigNode (config : Config) : Renews c (c.applyConfigNode st config) := by
  unfold applyConfigNode
  refine .ite (.refl c) ?_
  exact .ite (renews_conditional _) ((renews_conditional _).trans (renews_applySettings config))

/-- After the completion a pass only renews operations. -/
theorem renews_completed (config : Config) : Renews (c.completeOperation st) (c.pass st config) :=
  (renews_conditional _).trans (renews_applyConfigNode config)

theorem renews_pass (config : Config) : Renews c (c.pass st config) :=
  renews_completeOperation.trans (renews_completed config)

theorem rebootIfNeeded_of_due (h : c.rebootDue st) : c.rebootIfNeeded st.qcfg =
    { c.cancelAllOperations.construct .reboot with currentPin := .empty } := by
  unfold rebootDue at h
  simp only [Bool.and_eq_true, Bool.not_eq_true'] at h
  simp [rebootIfNeeded, h]

theorem rebootIfNeeded_of_not_due (h : c.rebootDue st = false) : c.rebootIfNeeded st.qcfg = c := by
  unfold rebootDue at h
  simp only [Bool.and_eq_false_imp, Bool.not_eq_true'] at h
  unfold rebootIfNeeded
  split
  · rename_i hc
    simp [h (by simpa using hc.1)] at hc
  · rfl

/-- Querying and assigning settings leaves the reboot decision alone. -/
theorem rebootDue_settings :
    ((c.queryUnknown st st.qcfg).assignMismatching st.qcfg).rebootDue st = c.rebootDue st := by
  rw [rebootDue, constructed_reboot_assignMismatching, constructed_reboot_queryUnknown, rebootDue]

theorem touches_applyQcfg (h : c.rebootDue st = false) :
    Touches [.queryQcfg, .assignQcfg] c (c.applyQcfg st st.qcfg) := by
  rw [applyQcfg, rebootIfNeeded_of_not_due (rebootDue_settings.trans h)]
  have hq : Touches [.queryQcfg] c (c.queryUnknown st st.qcfg) := touches_queryUnknown _
  have ha : Touches [.assignQcfg] (c.queryUnknown st st.qcfg)
      ((c.queryUnknown st st.qcfg).assignMismatching st.qcfg) := touches_assignMismatching _
  exact ⟨fun k hk => (ha.ops k (by simp_all)).trans (hq.ops k (by simp_all)),
    ha.currentPin.trans hq.currentPin, ha.currentRingCount.trans hq.currentRingCount,
    ha.outboundInfo.trans hq.outboundInfo⟩

/-- A due reboot replaces all operations and forgets the PIN. -/
theorem applyQcfg_of_due (h : c.rebootDue st) : c.applyQcfg st st.qcfg =
    { c.cancelAllOperations.construct .reboot with currentPin := .empty } := by
  rw [applyQcfg, rebootIfNeeded_of_due (rebootDue_settings.trans h)]
  have hq : Touches [.queryQcfg] c (c.queryUnknown st st.qcfg) := touches_queryUnknown _
  have ha : Touches [.assignQcfg] (c.queryUnknown st st.qcfg)
      ((c.queryUnknown st st.qcfg).assignMismatching st.qcfg) := touches_assignMismatching _
  simp only [construct, cancelAllOperations, ha.currentRingCount, hq.currentRingCount,
    ha.outboundInfo, hq.outboundInfo]

theorem currentRingCount_applyQcfg :
    (c.applyQcfg st st.qcfg).currentRingCount = c.currentRingCount := by
  cases h : c.rebootDue st with
  | false => exact (touches_applyQcfg h).currentRingCount
  | true => rw [applyQcfg_of_due h]; rfl

theorem outboundInfo_applyQcfg : (c.applyQcfg st st.qcfg).outboundInfo = c.outboundInfo := by
  cases h : c.rebootDue st with
  | false => exact (touches_applyQcfg h).outboundInfo
  | true => rw [applyQcfg_of_due h]; rfl

theorem currentRingCount_beforeCall (config : Config) :
    (c.beforeCall st config).currentRingCount = c.currentRingCount := by
  unfold beforeCall
  rw [touches_keepCallListUpToDate.currentRingCount, (touches_applyHangUp _).currentRingCount,
    (touches_applyPower _).currentRingCount, (touches_applyPin _).currentRingCount,
    currentRingCount_applyQcfg]

theorem currentRingCount_beforeRing (config : Config) :
    (c.beforeRing st config).currentRingCount = c.currentRingCount := by
  unfold beforeRing
  split
  · exact currentRingCount_beforeCall config
  · rw [(touches_applyCall _).currentRingCount, currentRingCount_beforeCall config]

theorem submitted_beforeRing (config : Config) : (c.beforeRing st config).submitted j =
    (c.beforeCall st config).submitted j := by
  unfold beforeRing
  split
  · rfl
  · exact submitted_applyCall _

/-- A submitted operation survives the settings unless they drop it. -/
theorem submitted_applySettings (config : Config) : (c.applySettings st config).submitted j =
    (c.submitted j && !c.drops st config j) := by
  have hring : (c.applySettings st config).submitted j = ((c.beforeCall st config).submitted j &&
      !(decide (j = .ring) && (config.ring.isSome && decide (c.currentRingCount ≠ st.ringCount)))) := by
    rw [applySettings_eq]
    cases config.ring with
    | none => simp [submitted_beforeRing]
    | some ring =>
      simp [submitted_applyRing, submitted_beforeRing, currentRingCount_beforeRing]
  rw [hring, beforeCall, submitted_keepCallListUpToDate, submitted_applyHangUp, submitted_applyPower,
    submitted_applyPin, submitted_applyQcfg]
  cases hdue : c.rebootDue st with
  | true => simp [drops, hdue]
  | false =>
    have hpin : (c.applyQcfg st st.qcfg).pinChanged st config.pinValue
        = c.pinChanged st config.pinValue := by
      simp [pinChanged, (touches_applyQcfg hdue).currentPin]
    cases j <;> simp [drops, hdue, hpin]

-- ---------------------------------------------------------------------------
-- The slots after a pass
-- ---------------------------------------------------------------------------

theorem applyQcfg_ops (hk : k ∉ [Kind.queryQcfg, .assignQcfg, .reboot]) :
    (c.applyQcfg st st.qcfg).ops k = if c.rebootDue st then none else c.ops k := by
  simp only [List.mem_cons, List.not_mem_nil, or_false, not_or] at hk
  cases h : c.rebootDue st with
  | false => simpa using (touches_applyQcfg h).ops k (by simp [hk])
  | true =>
    rw [applyQcfg_of_due h]
    simp [hk.2.2, cancelAllOperations]

theorem beforeCall_ops (config : Config) (hk : k ∉ [Kind.requestPinState, .setPin, .requestPinCount,
    .powerDown, .hangUp, .requestCallList]) :
    (c.beforeCall st config).ops k = (c.applyQcfg st st.qcfg).ops k := by
  simp only [List.mem_cons, List.not_mem_nil, or_false, not_or] at hk
  unfold beforeCall
  rw [touches_keepCallListUpToDate.ops k (by simp [hk]), (touches_applyHangUp _).ops k (by simp [hk]),
    (touches_applyPower _).ops k (by simp [hk]), (touches_applyPin _).ops k (by simp [hk])]

theorem beforeRing_ops (config : Config) (hk : k ∉ [Kind.acceptCall, .initiateCall]) :
    (c.beforeRing st config).ops k = (c.beforeCall st config).ops k := by
  unfold beforeRing
  split
  · rfl
  · exact (touches_applyCall _).ops k hk

theorem applySettings_ops (config : Config) (hk : k ≠ .ring) :
    (c.applySettings st config).ops k = (c.beforeRing st config).ops k := by
  rw [applySettings_eq]
  split
  · rfl
  · exact (touches_applyRing _).ops k (by simpa using hk)

/-- Neither the probe nor the echo operation is constructed by the settings. -/
theorem applySettings_ops_startup (config : Config) (hk : k = .checkReady ∨ k = .disableEcho) :
    (c.applySettings st config).ops k = if c.rebootDue st then none else c.ops k := by
  rcases hk with rfl | rfl
  · rw [applySettings_ops config (by decide), beforeRing_ops config (by decide),
      beforeCall_ops config (by decide), applyQcfg_ops (by decide)]
  · rw [applySettings_ops config (by decide), beforeRing_ops config (by decide),
      beforeCall_ops config (by decide), applyQcfg_ops (by decide)]

theorem applySettings_reboot (config : Config) (h : c.rebootDue st) :
    (c.applySettings st config).ops .reboot = some { request := .reboot } := by
  rw [applySettings_ops config (by decide), beforeRing_ops config (by decide),
    beforeCall_ops config (by decide), applyQcfg_of_due h]
  change (c.cancelAllOperations.construct .reboot).ops .reboot = _
  exact construct_ops_self

/-- Behind the PIN logic nothing touches the PIN. -/
theorem applySettings_pin (st : Status) (config : Config) (c : Control) :
    (c.applySettings st config).ops .setPin
        = ((c.applyQcfg st st.qcfg).applyPin st config.pinValue).ops .setPin ∧
      (c.applySettings st config).currentPin
        = ((c.applyQcfg st st.qcfg).applyPin st config.pinValue).currentPin := by
  have hcall : (c.beforeRing st config).currentPin = (c.beforeCall st config).currentPin := by
    unfold beforeRing
    split
    · rfl
    · exact (touches_applyCall _).currentPin
  have hring : (c.applySettings st config).currentPin = (c.beforeRing st config).currentPin := by
    rw [applySettings_eq]
    split
    · rfl
    · exact (touches_applyRing _).currentPin
  constructor
  · rw [applySettings_ops config (by decide), beforeRing_ops config (by decide), beforeCall,
      touches_keepCallListUpToDate.ops _ (by decide), (touches_applyHangUp _).ops _ (by decide),
      (touches_applyPower _).ops _ (by decide)]
  · rw [hring, hcall, beforeCall, touches_keepCallListUpToDate.currentPin,
      (touches_applyHangUp _).currentPin, (touches_applyPower _).currentPin]

/-- A changed PIN is taken up, unless the operation just failed. -/
theorem applyPin_of_changed (h : c.pinChanged st pin)
    (hs : c.submitted .setPin = false ∨ st.cmeError = none) :
    (c.applyPin st pin).currentPin = pin ∧
      (c.applyPin st pin).ops .setPin = some { request := .setPin pin } := by
  simp only [pinChanged, Bool.and_eq_true, Option.any_eq_true, decide_eq_true_eq] at h
  obtain ⟨⟨cpin, hcpin, hask⟩, hne, hcur⟩ := h
  have hfail : (c.submitted .setPin && st.cmeError.isSome) = false := by
    rcases hs with hs | hs <;> simp [hs]
  simp [applyPin, pinRequestFailed, hfail, hcpin, hask, hne, hcur]

theorem applySettings_setPin (config : Config) (hdue : c.rebootDue st = false)
    (hcme : st.cmeError = none) (h : c.pinChanged st config.pinValue) :
    (c.applySettings st config).ops .setPin = some { request := .setPin config.pinValue } := by
  have hpin := (touches_applyQcfg hdue).currentPin
  rw [(applySettings_pin st config c).1]
  exact (applyPin_of_changed (by simpa [pinChanged, hpin] using h) (.inr hcme)).2

theorem applySettings_ring (config : Config) (h : config.ring.isSome)
    (hcount : c.currentRingCount ≠ st.ringCount) :
    (c.applySettings st config).constructed .ring := by
  obtain ⟨ring, hring⟩ := Option.isSome_iff_exists.mp h
  have hcur : (c.beforeRing st config).currentRingCount = c.currentRingCount :=
    currentRingCount_beforeRing config
  rw [applySettings_eq, hring]
  simp [applyRing, hcur, hcount, constructed]

/-- What the settings drop does not depend on the operations, a reboot apart. -/
theorem drops_congr {config : Config} (hk : c'.constructed .reboot = c.constructed .reboot)
    (hp : c'.currentPin = c.currentPin) (hr : c'.currentRingCount = c.currentRingCount) :
    c'.drops st config j = c.drops st config j := by
  simp [drops, rebootDue, pinChanged, hk, hp, hr]

/-- How far `_apply_config` gets. -/
theorem applyConfigNode_cases (st : Status) (config : Config) (c : Control) :
    (c.constructed .reboot ∨ st.rdy = false) ∧ c.applyConfigNode st config = c
    ∨ c.constructed .reboot = false ∧ st.rdy = true ∧ st.echoDisabled = false ∧
        c.applyConfigNode st config = c.conditional st.atOk .disableEcho
    ∨ c.settingsReached st ∧
        c.applyConfigNode st config = (c.destruct .disableEcho).applySettings st config := by
  unfold applyConfigNode settingsReached
  dsimp only
  split
  · rename_i h
    exact .inl ⟨h.imp_right fun h => by simpa using h, rfl⟩
  · rename_i h
    simp only [not_or, Bool.not_eq_true] at h
    cases he : st.echoDisabled with
    | false => exact .inr (.inl ⟨h.1, by simpa using h.2, rfl, by simp⟩)
    | true => exact .inr (.inr ⟨by simpa [h.1] using h.2, by simp [conditional]⟩)

theorem touches_completeOperation : Touches Kind.all c (c.completeOperation st) := by
  unfold completeOperation
  split
  · split
    · exact .refl _ _
    · exact .destruct (Kind.mem_all _)
  · exact .refl _ _

/-- In front of the settings a pass touches the probe and `ATE0` only. -/
theorem touches_probe (c : Control) (st : Status) : Touches [.checkReady, .disableEcho] (c.completeOperation st)
    ((c.completeOperation st).conditional (!st.atOk) .checkReady) :=
  .conditional _ _ (by simp)

/-- Behind the guards a pass is the settings' work. -/
theorem pass_of_reached (config : Config) (h : (c.completeOperation st).settingsReached st) :
    ∃ c' : Control, c.pass st config = c'.applySettings st config ∧
      Touches [.checkReady, .disableEcho] (c.completeOperation st) c' := by
  set c₁ := (c.completeOperation st).conditional (!st.atOk) .checkReady with hc₁
  have hreboot : c₁.constructed .reboot = (c.completeOperation st).constructed .reboot :=
    constructed_congr ((touches_probe _ _).ops _ (by decide))
  have h' : c₁.settingsReached st = true := by simpa [settingsReached, hreboot] using h
  have hpass : c.pass st config = c₁.applyConfigNode st config := rfl
  rcases applyConfigNode_cases st config c₁ with ⟨hstop, -⟩ | ⟨-, -, hecho, -⟩ | ⟨-, he⟩
  · simp only [settingsReached, Bool.and_eq_true, Bool.not_eq_true'] at h'
    rcases hstop with hstop | hstop
    · simp [hstop] at h'
    · simp [hstop] at h'
  · simp [settingsReached, hecho] at h'
  · exact ⟨_, hpass.trans he, (touches_probe _ _).trans (.destruct (by simp))⟩

/-- In front of the guards a pass touches the probe and `ATE0` only. -/
theorem touches_pass_of_not_reached (config : Config)
    (h : (c.completeOperation st).settingsReached st = false) :
    Touches [.checkReady, .disableEcho] (c.completeOperation st) (c.pass st config) := by
  set c₁ := (c.completeOperation st).conditional (!st.atOk) .checkReady with hc₁
  have hreboot : c₁.constructed .reboot = (c.completeOperation st).constructed .reboot :=
    constructed_congr ((touches_probe _ _).ops _ (by decide))
  have hpass : c.pass st config = c₁.applyConfigNode st config := rfl
  rw [hpass]
  rcases applyConfigNode_cases st config c₁ with ⟨-, he⟩ | ⟨-, -, -, he⟩ | ⟨h', -⟩
  · rw [he]; exact touches_probe _ _
  · rw [he]; exact (touches_probe _ _).trans (.conditional _ _ (by simp))
  · simp [settingsReached, hreboot, ← Bool.not_eq_true] at h h'
    simp [h h'.1.1 h'.1.2] at h'

end Allwinner.Modem.Control
