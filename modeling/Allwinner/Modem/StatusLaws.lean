import Allwinner.Modem.Status

/-!
# What one line does to the status

Each step of `Status.applyLine` as one record update, and from these the value
of every field after a line. A batch of lines follows by induction.
-/

namespace Allwinner.Modem.Status

variable {scan : Scanner} {s : Status} {l : Text}

/-- The pending command is the one with text `t`. -/
def isPending (pending : Option Command) (t : Text) : Bool := pending.any (·.chars = t)

@[simp] theorem isPending_none : isPending none t = false := rfl
@[simp] theorem isPending_some : isPending (some c) t = decide (c.chars = t) := rfl

/-- A counter that moves on if `b`. -/
def tick (n : UInt32) (b : Bool) : UInt32 := if b then n + 1 else n

@[simp] theorem tick_false : tick n false = n := rfl
@[simp] theorem tick_true : tick n true = n + 1 := rfl

-- ---------------------------------------------------------------------------
-- The steps as record updates
-- ---------------------------------------------------------------------------

theorem applyCpin_eq : s.applyCpin l = { s with
    cpin := ((withValue l cpinPrefix).map (Str.ofText 16)).or s.cpin
    version := tick s.version ((withValue l cpinPrefix).isSome) } := by
  unfold applyCpin; cases withValue l cpinPrefix <;> rfl

theorem applyCmeError_eq : s.applyCmeError l = { s with
    cmeError := ((withValue l cmeErrorPrefix).map (Str.ofText 16)).or s.cmeError
    version := tick s.version ((withValue l cmeErrorPrefix).isSome) } := by
  unfold applyCmeError; cases withValue l cmeErrorPrefix <;> rfl

theorem applySimPinCount_eq : s.applySimPinCount l = { s with
    simPinCount := ((withValue l simPinCountPrefix).map (Str.ofText 16)).or s.simPinCount
    version := tick s.version ((withValue l simPinCountPrefix).isSome) } := by
  unfold applySimPinCount; cases withValue l simPinCountPrefix <;> rfl

theorem applyQcfgQueryResponse_eq : s.applyQcfgQueryResponse scan l = { s with
    qcfg := (queriedQcfg scan s.qcfg l).getD s.qcfg
    version := tick s.version ((queriedQcfg scan s.qcfg l).isSome) } := by
  unfold applyQcfgQueryResponse; cases queriedQcfg scan s.qcfg l <;> rfl

/-- The registry an `OK` to the pending command leaves, if it changes it. -/
def assignmentOf (scan : Scanner) (pending : Option Command) (q : Qcfg) (l : Text) : Option Qcfg :=
  if l = lineOk then pending.bind (assignedQcfg scan q) else none

theorem applyQcfgAssignResponse_eq : s.applyQcfgAssignResponse scan l = { s with
    qcfg := (assignmentOf scan s.pendingCommand s.qcfg l).getD s.qcfg
    version := tick s.version ((assignmentOf scan s.pendingCommand s.qcfg l).isSome) } := by
  by_cases hl : l = lineOk
  · obtain ⟨qcfg, _, pending⟩ := s
    cases pending with
    | none => simp [applyQcfgAssignResponse, withPendingCommand, assignmentOf, hl]
    | some c =>
      simp only [applyQcfgAssignResponse, withPendingCommand, assignmentOf, hl, if_true,
        Option.bind_some]
      cases assignedQcfg scan qcfg c <;> rfl
  · simp [applyQcfgAssignResponse, assignmentOf, hl]

theorem applyCurrentCall_eq : s.applyCurrentCall scan l = { s with
    currentCall := (Call.ofLine scan l).or s.currentCall
    version := tick s.version ((Call.ofLine scan l).isSome) } := by
  unfold applyCurrentCall; cases Call.ofLine scan l <;> rfl

theorem enablePoweredDown_eq : s.enablePoweredDown l = { s with
    poweredDown := decide (l = linePoweredDown) || s.poweredDown
    version := tick s.version (l = linePoweredDown) } := by
  unfold enablePoweredDown; split <;> simp_all [statusChanged]

theorem enableOk_eq : s.enableOk l = { s with
    ok := decide (l = lineOk) || s.ok
    version := tick s.version (l = lineOk) } := by
  unfold enableOk; split <;> simp_all [statusChanged]

theorem enableError_eq : s.enableError l = { s with
    error := decide (l = lineError) || s.error
    version := tick s.version (l = lineError) } := by
  unfold enableError; split <;> simp_all [statusChanged]

theorem enableRdy_eq : s.enableRdy l = { s with
    rdy := decide (l = lineRdy) || s.rdy
    version := tick s.version (l = lineRdy) } := by
  unfold enableRdy; split <;> simp_all [statusChanged]

theorem incrementRing_eq : s.incrementRing l = { s with
    ringCount := tick s.ringCount (l = lineRing)
    version := tick s.version (l = lineRing) } := by
  unfold incrementRing; split <;> simp_all [statusChanged]

theorem incrementNoCarrier_eq : s.incrementNoCarrier l = { s with
    noCarrierCount := tick s.noCarrierCount (l = lineNoCarrier)
    version := tick s.version (l = lineNoCarrier) } := by
  unfold incrementNoCarrier; split <;> simp_all [statusChanged]

theorem incrementBusy_eq : s.incrementBusy l reason = { s with
    busyCount := tick s.busyCount (l = reason)
    version := tick s.version (l = reason) } := by
  unfold incrementBusy; split <;> simp_all [statusChanged]

theorem discardPinInfo_eq : s.discardPinInfo l = { s with
    cpin := if l = "+CME ERROR: 16".toList then none else s.cpin } := by
  unfold discardPinInfo; split <;> rfl

theorem discardCallList_eq : s.discardCallList l = { s with
    clccUpToDate := if l = lineNoCarrier ∨ l = lineRing then false else s.clccUpToDate
    currentCall := if l = lineNoCarrier ∨ l = lineRing then none else s.currentCall } := by
  unfold discardCallList; split <;> rfl

theorem gatherResult_eq : s.gatherResult l = { s with
    atOk := (decide (l = lineOk) && isPending s.pendingCommand atCheckReady) || s.atOk
    echoDisabled := (decide (l = lineOk) && isPending s.pendingCommand atDisableEcho) || s.echoDisabled
    version := tick s.version
      (l = lineOk ∧ (isPending s.pendingCommand atCheckReady ∨ isPending s.pendingCommand atDisableEcho)) } := by
  have hne : atCheckReady ≠ atDisableEcho := by decide
  obtain ⟨_, _, pending⟩ := s
  cases pending with
  | none => simp [gatherResult, withPendingCommand, isPending]
  | some c =>
    by_cases hl : l = lineOk <;> by_cases hr : c.chars = atCheckReady <;>
      by_cases he : c.chars = atDisableEcho <;>
      simp_all [gatherResult, withPendingCommand, isPending, statusChanged]

theorem acceptListedCall_eq : s.acceptListedCall = { s with
    clccUpToDate := s.currentCall.isSome || s.clccUpToDate } := by
  unfold acceptListedCall
  split
  · simp_all
  · rename_i h; rw [eq_false_of_ne_true h]; rfl

theorem applyOkToPending_eq :
    let reboot : Prop := l = lineOk ∧ isPending s.pendingCommand atReboot = true
    let invalidated : Prop := l = lineOk ∧ s.pendingCommand.any clccInvalidated = true
    s.applyOkToPending l = { s with
      atOk := if reboot then false else s.atOk
      echoDisabled := if reboot then false else s.echoDisabled
      rdy := if reboot then false else s.rdy
      cpin := if reboot then none else s.cpin
      cmeError := if reboot then none else s.cmeError
      simPinCount := if reboot then none else s.simPinCount
      clccUpToDate :=
        if reboot ∨ invalidated then false
        else (decide (l = lineOk) && isPending s.pendingCommand atRequestCallList) || s.clccUpToDate
      currentCall := if reboot ∨ invalidated then none else s.currentCall
      qcfg := if reboot then s.qcfg.invalidateAfterReboot else s.qcfg } := by
  have hne : atReboot ≠ atRequestCallList := by decide
  by_cases hl : l = lineOk
  · obtain ⟨_, _, pending⟩ := s
    cases pending with
    | none => simp [applyOkToPending, withPendingCommand, isPending, hl]
    | some c =>
      by_cases hr : c.chars = atReboot <;> by_cases hc : c.chars = atRequestCallList <;>
        by_cases hi : clccInvalidated c <;>
        simp_all [applyOkToPending, withPendingCommand, isPending, confirmReboot, clccOutOfDate]
  · simp [applyOkToPending, hl]

theorem completeCommand_eq : s.completeCommand l = { s with
    pendingCommand := if isFinal l then none else s.pendingCommand } := by
  unfold completeCommand; split <;> rfl

-- ---------------------------------------------------------------------------
-- The fields after a line
-- ---------------------------------------------------------------------------

section Fields

variable (scan : Scanner) (s : Status) (l : Text)

/-- The line confirms the reboot that was commanded. -/
def ConfirmsReboot : Prop := l = lineOk ∧ isPending s.pendingCommand atReboot = true

/-- The line completes a command that changes the call list. -/
def InvalidatesClcc : Prop := l = lineOk ∧ s.pendingCommand.any clccInvalidated = true

instance : Decidable (ConfirmsReboot s l) := by unfold ConfirmsReboot; infer_instance
instance : Decidable (InvalidatesClcc s l) := by unfold InvalidatesClcc; infer_instance

/-- The settings after a line that does not confirm a reboot. -/
def qcfgAfter : Qcfg :=
  let queried := (queriedQcfg scan s.qcfg l).getD s.qcfg
  (assignmentOf scan s.pendingCommand queried l).getD queried

/-- The call after a line that neither confirms a reboot nor completes a call command. -/
def callAfter : Option Call :=
  if l = lineNoCarrier ∨ l = lineRing then none else (Call.ofLine scan l).or s.currentCall

theorem applyLine_eq : s.applyLine scan l = { s with
    qcfg :=
      if s.ConfirmsReboot l then (s.qcfgAfter scan l).invalidateAfterReboot
      else s.qcfgAfter scan l
    version := (s.applyLine scan l).version
    pendingCommand := if isFinal l then none else s.pendingCommand
    atOk :=
      if s.ConfirmsReboot l then false
      else (decide (l = lineOk) && isPending s.pendingCommand atCheckReady) || s.atOk
    echoDisabled :=
      if s.ConfirmsReboot l then false
      else (decide (l = lineOk) && isPending s.pendingCommand atDisableEcho) || s.echoDisabled
    poweredDown := decide (l = linePoweredDown) || false
    ok := decide (l = lineOk) || s.ok
    rdy := if s.ConfirmsReboot l then false else decide (l = lineRdy) || s.rdy
    error := decide (l = lineError) || s.error
    clccUpToDate :=
      if s.ConfirmsReboot l ∨ s.InvalidatesClcc l then false
      else (decide (l = lineOk) && isPending s.pendingCommand atRequestCallList) ||
        ((s.callAfter scan l).isSome ||
          if l = lineNoCarrier ∨ l = lineRing then false else s.clccUpToDate)
    ringCount := tick s.ringCount (l = lineRing)
    noCarrierCount := tick s.noCarrierCount (l = lineNoCarrier)
    busyCount :=
      tick (tick (tick s.busyCount (l = "+CME ERROR: 10".toList)) (l = "+CME ERROR: 14".toList))
        (l = lineError)
    cpin :=
      if s.ConfirmsReboot l then none
      else if l = "+CME ERROR: 16".toList then none
      else ((withValue l cpinPrefix).map (Str.ofText 16)).or s.cpin
    cmeError :=
      if s.ConfirmsReboot l then none
      else ((withValue l cmeErrorPrefix).map (Str.ofText 16)).or s.cmeError
    simPinCount :=
      if s.ConfirmsReboot l then none
      else ((withValue l simPinCountPrefix).map (Str.ofText 16)).or s.simPinCount
    currentCall :=
      if s.ConfirmsReboot l ∨ s.InvalidatesClcc l then none else s.callAfter scan l } := by
  simp only [applyLine, applyCpin_eq, applyCmeError_eq, applySimPinCount_eq, applyQcfgResponse,
    applyQcfgQueryResponse_eq, applyQcfgAssignResponse_eq, applyCurrentCall_eq,
    enablePoweredDown_eq, enableOk_eq, enableError_eq, enableRdy_eq, incrementRing_eq,
    incrementNoCarrier_eq, incrementBusy_eq, discardPinInfo_eq, discardCallList_eq,
    gatherResult_eq, acceptListedCall_eq, applyOkToPending_eq, completeCommand_eq]
  rfl

theorem pendingCommand_applyLine :
    (s.applyLine scan l).pendingCommand = if isFinal l then none else s.pendingCommand := by
  rw [applyLine_eq]

theorem ok_applyLine : (s.applyLine scan l).ok = (decide (l = lineOk) || s.ok) := by
  rw [applyLine_eq]

theorem error_applyLine : (s.applyLine scan l).error = (decide (l = lineError) || s.error) := by
  rw [applyLine_eq]

theorem rdy_applyLine : (s.applyLine scan l).rdy =
    if s.ConfirmsReboot l then false else decide (l = lineRdy) || s.rdy := by
  rw [applyLine_eq]

theorem atOk_applyLine : (s.applyLine scan l).atOk =
    if s.ConfirmsReboot l then false
    else (decide (l = lineOk) && isPending s.pendingCommand atCheckReady) || s.atOk := by
  rw [applyLine_eq]

theorem echoDisabled_applyLine : (s.applyLine scan l).echoDisabled =
    if s.ConfirmsReboot l then false
    else (decide (l = lineOk) && isPending s.pendingCommand atDisableEcho) || s.echoDisabled := by
  rw [applyLine_eq]

theorem cmeError_applyLine : (s.applyLine scan l).cmeError =
    if s.ConfirmsReboot l then none
    else ((withValue l cmeErrorPrefix).map (Str.ofText 16)).or s.cmeError := by
  rw [applyLine_eq]

theorem clccUpToDate_applyLine : (s.applyLine scan l).clccUpToDate =
    if s.ConfirmsReboot l ∨ s.InvalidatesClcc l then false
    else (decide (l = lineOk) && isPending s.pendingCommand atRequestCallList) ||
      ((s.callAfter scan l).isSome ||
        if l = lineNoCarrier ∨ l = lineRing then false else s.clccUpToDate) := by
  rw [applyLine_eq]

theorem currentCall_applyLine : (s.applyLine scan l).currentCall =
    if s.ConfirmsReboot l ∨ s.InvalidatesClcc l then none else s.callAfter scan l := by
  rw [applyLine_eq]

theorem qcfg_applyLine : (s.applyLine scan l).qcfg =
    if s.ConfirmsReboot l then (s.qcfgAfter scan l).invalidateAfterReboot
    else s.qcfgAfter scan l := by
  rw [applyLine_eq]

end Fields

-- ---------------------------------------------------------------------------
-- The empty line
-- ---------------------------------------------------------------------------

theorem gatherResult_empty : s.gatherResult [] = s := by
  have hne : ([] : Text) ≠ lineOk := by decide
  unfold gatherResult withPendingCommand
  split <;> simp [hne]

/-- An empty line says no more than that the modem is not powered down. -/
theorem applyLine_empty : s.applyLine scan [] = { s with
    poweredDown := false
    clccUpToDate := s.currentCall.isSome || s.clccUpToDate } := by
  have hsteps : s.applyLine scan [] =
      (({ s with poweredDown := false } : Status).gatherResult []).acceptListedCall := rfl
  rw [hsteps, gatherResult_empty, acceptListedCall_eq]

/-- The line after an empty one hides it. -/
theorem applyLine_applyLine_empty :
    (s.applyLine scan []).applyLine scan l = s.applyLine scan l := by
  rw [applyLine_empty]
  simp only [applyLine, applyCpin_eq, applyCmeError_eq, applySimPinCount_eq, applyQcfgResponse,
    applyQcfgQueryResponse_eq, applyQcfgAssignResponse_eq, applyCurrentCall_eq,
    enablePoweredDown_eq, enableOk_eq, enableError_eq, enableRdy_eq, incrementRing_eq,
    incrementNoCarrier_eq, incrementBusy_eq, discardPinInfo_eq, discardCallList_eq,
    gatherResult_eq, acceptListedCall_eq, applyOkToPending_eq, completeCommand_eq]
  -- the settings a line leaves differ in `clccUpToDate` at most
  congr 1
  by_cases hl : l = lineNoCarrier ∨ l = lineRing
  · simp only [hl, if_true]
  · simp only [hl, if_false]
    cases Call.ofLine scan l <;> cases s.currentCall <;> simp

/-- A call is known only with an up-to-date list, once a line has arrived. -/
theorem clccUpToDate_of_currentCall (h : (s.applyLine scan l).currentCall.isSome) :
    (s.applyLine scan l).clccUpToDate = true := by
  rw [currentCall_applyLine] at h
  rw [clccUpToDate_applyLine]
  split_ifs at h ⊢
  · cases h
  · simp [h]
  · simp [h]

/-- The status when anything was heard of the modem. -/
def heard (s : Status) : Status := { s with poweredDown := false }

theorem heard_eq_iff : s.heard = s ↔ s.poweredDown = false := by
  constructor
  · intro h
    rw [← h]
    rfl
  · obtain ⟨⟩ := s
    rintro rfl
    rfl

theorem applyLine_empty_applyLine :
    (s.applyLine scan l).applyLine scan [] = (s.applyLine scan l).heard := by
  rw [applyLine_empty]
  simpa [heard] using clccUpToDate_of_currentCall

-- ---------------------------------------------------------------------------
-- A batch of lines
-- ---------------------------------------------------------------------------

section Batch

variable {ls : List Text}

@[simp] theorem applyLines_nil : s.applyLines scan [] = s := rfl

@[simp] theorem applyLines_cons :
    s.applyLines scan (l :: ls) = (s.applyLine scan l).applyLines scan ls := rfl

/-- The reboot that was commanded gets confirmed within the batch. -/
def Confirmed (s : Status) (ls : List Text) : Prop :=
  lineOk ∈ ls ∧ isPending s.pendingCommand atReboot = true

theorem isFinal_ok : isFinal lineOk = true := rfl

theorem isFinal_of_cmeError (h : withValue l cmeErrorPrefix ≠ none) : isFinal l = true := by
  have hl : startsWith l cmeErrorPrefix = true := by
    rw [← withValue_isSome]
    exact Option.isSome_iff_ne_none.mpr h
  have hp : cmeErrorStart <+: l :=
    (show cmeErrorStart <+: cmeErrorPrefix by decide).trans (List.isPrefixOf_iff_prefix.mp hl)
  simp [isFinal, startsWith, List.isPrefixOf_iff_prefix.mpr hp]

theorem isPending_applyLine (h : isPending (s.applyLine scan l).pendingCommand t = true) :
    isPending s.pendingCommand t = true ∧ isFinal l = false := by
  rw [pendingCommand_applyLine] at h
  split at h
  · cases h
  · rename_i hf
    exact ⟨h, eq_false_of_ne_true hf⟩

theorem pendingCommand_applyLines : (s.applyLines scan ls).pendingCommand =
    if ls.any isFinal then none else s.pendingCommand := by
  induction ls generalizing s with
  | nil => rfl
  | cons l ls ih =>
    rw [applyLines_cons, ih, pendingCommand_applyLine]
    cases hl : isFinal l <;> simp [hl]

theorem ok_applyLines : (s.applyLines scan ls).ok = (decide (lineOk ∈ ls) || s.ok) := by
  induction ls generalizing s with
  | nil => rfl
  | cons l ls ih =>
    rw [applyLines_cons, ih, ok_applyLine]
    by_cases h : l = lineOk <;> simp [h, eq_comm]

/-- The result of the last command is gone while a command is pending. -/
def Fresh (s : Status) : Prop :=
  s.pendingCommand ≠ none → s.ok = false ∧ s.error = false ∧ s.cmeError = none

theorem Fresh.applyLine (h : s.Fresh) : (s.applyLine scan l).Fresh := by
  intro hp
  rw [pendingCommand_applyLine] at hp
  have hl : isFinal l = false := by
    by_contra hf
    simp [hf] at hp
  obtain ⟨hok, herr, hcme⟩ := h (by simpa [hl] using hp)
  have hne : l ≠ lineOk ∧ l ≠ lineError := by
    constructor
    · rintro rfl; cases hl
    · rintro rfl; cases hl
  have hv : withValue l cmeErrorPrefix = none := by
    by_contra hv
    simp [isFinal_of_cmeError hv] at hl
  refine ⟨?_, ?_, ?_⟩
  · simp [ok_applyLine, hok, hne]
  · simp [error_applyLine, herr, hne]
  · simp [cmeError_applyLine, hcme, hv]

theorem Fresh.applyLines (h : s.Fresh) : (s.applyLines scan ls).Fresh := by
  induction ls generalizing s with
  | nil => exact h
  | cons l ls ih => exact ih h.applyLine

theorem commandSubmitted_eq (s : Status) (c : Command) : s.commandSubmitted c = { s with
    version := s.version + 1
    pendingCommand := some c
    ok := false
    error := false
    cmeError := none
    clccUpToDate := if c.chars = atRequestCallList then false else s.clccUpToDate
    currentCall := if c.chars = atRequestCallList then none else s.currentCall } := by
  unfold commandSubmitted
  dsimp only
  split <;> rfl

theorem rdy_commandSubmitted (s : Status) (c : Command) : (s.commandSubmitted c).rdy = s.rdy := by
  rw [commandSubmitted_eq]

theorem fresh_commandSubmitted : (s.commandSubmitted c).Fresh := by
  intro
  unfold commandSubmitted
  dsimp only
  split <;> exact ⟨rfl, rfl, rfl⟩

theorem confirmed_of_line (h : s.ConfirmsReboot l) : s.Confirmed (l :: ls) :=
  ⟨by simp [h.1], h.2⟩

theorem Confirmed.of_cons (h : (s.applyLine scan l).Confirmed ls) : s.Confirmed (l :: ls) :=
  ⟨by simp [h.1], (isPending_applyLine h.2).1⟩

/-- Readiness is learnt from the `OK` to the probe only. -/
theorem atOk_of_applyLines (h : (s.applyLines scan ls).atOk = true) :
    s.atOk = true ∨ lineOk ∈ ls ∧ isPending s.pendingCommand atCheckReady = true := by
  induction ls generalizing s with
  | nil => exact .inl h
  | cons l ls ih =>
    rcases ih h with h | ⟨hok, hp⟩
    · rw [atOk_applyLine] at h
      split at h
      · cases h
      · rcases Bool.or_eq_true_iff.mp h with h | h
        · simp only [Bool.and_eq_true, decide_eq_true_eq] at h
          exact .inr ⟨by simp [h.1], h.2⟩
        · exact .inl h
    · exact .inr ⟨by simp [hok], (isPending_applyLine hp).1⟩

theorem atOk_applyLines (h : s.atOk = true) :
    (s.applyLines scan ls).atOk = true ∨ s.Confirmed ls := by
  induction ls generalizing s with
  | nil => exact .inl h
  | cons l ls ih =>
    by_cases hc : s.ConfirmsReboot l
    · exact .inr (confirmed_of_line hc)
    · exact (ih (by simp [atOk_applyLine, hc, h])).imp_right .of_cons

/-- The echo is disabled by the `OK` to `ATE0` only. -/
theorem echoDisabled_of_applyLines (h : (s.applyLines scan ls).echoDisabled = true) :
    s.echoDisabled = true ∨ lineOk ∈ ls ∧ isPending s.pendingCommand atDisableEcho = true := by
  induction ls generalizing s with
  | nil => exact .inl h
  | cons l ls ih =>
    rcases ih h with h | ⟨hok, hp⟩
    · rw [echoDisabled_applyLine] at h
      split at h
      · cases h
      · rcases Bool.or_eq_true_iff.mp h with h | h
        · simp only [Bool.and_eq_true, decide_eq_true_eq] at h
          exact .inr ⟨by simp [h.1], h.2⟩
        · exact .inl h
    · exact .inr ⟨by simp [hok], (isPending_applyLine hp).1⟩

theorem echoDisabled_applyLines (h : s.echoDisabled = true) :
    (s.applyLines scan ls).echoDisabled = true ∨ s.Confirmed ls := by
  induction ls generalizing s with
  | nil => exact .inl h
  | cons l ls ih =>
    by_cases hc : s.ConfirmsReboot l
    · exact .inr (confirmed_of_line hc)
    · exact (ih (by simp [echoDisabled_applyLine, hc, h])).imp_right .of_cons

end Batch

end Allwinner.Modem.Status
