import Allwinner.Gpu.Objects

/-!
# The worker of a session

Each session has a worker task that carries its requests into the kernel, one at
a time, through a slot for the pending and one for the completed request. A wait
may block the worker and keep the slot until the kernel wakes it.
-/

namespace Allwinner.Gpu

-- ---------------------------------------------------------------------------
-- The surroundings of the driver
-- ---------------------------------------------------------------------------

/-- How a waiting `ioctl` goes. -/
inductive Wait where
  | blocks
  | returns (err : Int)
  deriving DecidableEq

/-- A buffer named in a submission: `lx_drm_gem_submit_bo_handle` unless null, and
`lx_drm_gem_submit_bo_read`. -/
structure SubmitBo where
  handle : Option VramId
  read : Bool := false

/-- What a client wrote into the buffer it executes. -/
structure Submit where
  bos : List SubmitBo := []
  pipe : Nat := 0

/-- What the driver finds around it in the course of a call: the answers of the kernel,
with `none` for an error, whether `new` succeeds, and the submission. -/
structure Env where
  ctxCreate : Option Nat := none
  ctxFree : Bool := false
  syncobjCreate : Option Nat := none
  syncobjDestroy : Bool := false
  syncobjWait : Nat → Wait := fun _ => .blocks
  gemCreate : (va size : Nat) → Option Nat := fun _ _ => none
  gemInfo : (handle : Nat) → Option Nat := fun _ => none
  gemClose : (handle : Nat) → Bool := fun _ => false
  gemOpen : (name : Nat) → Option (Nat × Nat) := fun _ => none
  gemFlink : (handle : Nat) → Option Nat := fun _ => none
  gemSubmit : Option Nat := none
  gemWait : (handle op : Nat) → Wait := fun _ _ => .blocks
  newVram : Bool := false
  newVramLocal : Bool := false
  submit : Submit := {}

-- ---------------------------------------------------------------------------
-- `gpu_task_func`
-- ---------------------------------------------------------------------------

namespace Request

def succeeded (r : Request) (operation : Operation) : Request := { r with operation, success := true }

def withSuccess (r : Request) (success : Bool) : Request := { r with success }

/-- The request once the kernel returned `err` for its wait. -/
def waited (r : Request) : Wait → Option Request
  | .blocks => none
  | .returns err => some (r.withSuccess (err = 0))

end Request

namespace Session

/-- `EXEC`: the loop over the buffers, which tells whether an error came up. -/
def translateBos (w : World) (s : Session) : List SubmitBo → Except Fault Bool
  | [] => .ok false
  | bo :: bos =>
    match bo.handle with
    | none => .ok true
    | some id => do
      let _ ← w.withBo s id bo.read
      match (s.vramLocals.lookup id).bind (·.importHandle) with
      | none => return true
      | some _ => translateBos w s bos

/-- `EXEC`. -/
def dispatchExec (w : World) (s : Session) (env : Env) (r : Request) : Except Fault Request := do
  if !(← w.withBo s r.operation.id true) then return r
  let err ← translateBos w s env.submit.bos
  if env.submit.pipe ≥ MAX_PIPE then return r
  if err then return r
  match env.gemSubmit with
  | none => return r
  | some seqno => return r.succeeded { r.operation with seqno }

/-- The other requests. The result is the request as finished, or `none` if the worker
blocks in it. -/
def dispatchOther (s : Session) (env : Env) (r : Request) : Session × Option Request :=
  let o := r.operation
  match o.type with
  | .ctxCreate =>
    match env.ctxCreate with
    | none => (s, some r)
    | some ctxId => (s, some (r.succeeded { o with ctxId }))
  | .ctxFree => (s, some (r.withSuccess env.ctxFree))
  | .syncobjCreate =>
    match env.syncobjCreate with
    | none => (s, some r)
    | some handle => (s, some (r.succeeded { o with syncobjId := Function.update o.syncobjId 0 handle }))
  | .syncobjDestroy => (s, some (r.withSuccess env.syncobjDestroy))
  | .syncobjWait => (s, r.waited (env.syncobjWait (o.syncobjId 0)))
  | .alloc =>
    match env.gemCreate o.va o.size with
    | none => (s, some r)
    | some handle =>
      match env.gemInfo handle with
      | none => (s, some r)
      | some va =>
        if o.va ≠ va then (s, some r)
        else
          ({ s with
              buffers := s.buffers.insert o.id { serial := s.nextSerial, handle, va }
              nextSerial := s.nextSerial + 1 },
            some (r.succeeded o))
  | .gemClose => (s, some (r.withSuccess (env.gemClose o.handle)))
  | .gemOpen =>
    match env.gemOpen o.name with
    | none => (s, some r)
    | some (handle, size) => (s, some (r.succeeded { o with handle, size := size % 2 ^ 32 }))
  | .flink =>
    match s.buffers.lookup o.id with
    | none => (s, some r)
    | some b =>
      match env.gemFlink b.handle with
      | none => (s, some r)
      | some name => (s, some (r.succeeded { o with name }))
  | .free =>
    match s.buffers.lookup o.id with
    | none => (s, some r)
    | some _ => ({ s with buffers := s.buffers.erase o.id }, some (r.succeeded o))
  | .wait =>
    match s.buffers.lookup o.id with
    | none => (s, some r)
    | some b => (s, r.waited (env.gemWait b.handle o.op))
  | .exec | .invalid => (s, some r)

/-- `dispatch_pending`. -/
def dispatch (w : World) (s : Session) (env : Env) (r : Request) :
    Except Fault (Session × Option Request) :=
  let r := r.withSuccess false
  match r.operation.type with
  | .exec => (dispatchExec w s env r).map fun r => (s, some r)
  | _ => .ok (s.dispatchOther env r)

-- ---------------------------------------------------------------------------
-- `_schedule_request`
-- ---------------------------------------------------------------------------

/-- `_managed_id`. -/
def managedId (s : Session) (r : Request) : Bool :=
  match r.operation.type with
  | .free | .exec => (s.buffers.lookup r.operation.id).isSome
  | _ => true

/-- The session after `_schedule_request`, the request `succ_fn` is called with unless
`fail_fn` is, and what the worker finished. -/
structure Scheduled where
  session : Session
  result : Option Request := none
  finished : List Request := []

/-- The worker takes up `r`, and resets the completed request first. -/
def start (s : Session) (r : Request) : Session := { s with pending := r, completed := {} }

/-- The worker finished `r`. -/
def finish (s : Session) (r : Request) : Session := { s with completed := r, pending := {} }

/-- `_schedule_request`. -/
def scheduleRequest (w : World) (s : Session) (env : Env) (r : Request) : Except Fault Scheduled := do
  -- "that should not happen and is most likely a bug in the client"
  if s.pending.valid then return { session := s }
  if !s.managedId r then return { session := s }
  match ← (s.start r).dispatch w env r with
  | (s, none) => return { session := s }
  | (s, some r) =>
    return { session := s.finish r, result := if r.success then some r else none, finished := [r] }

/-- `_schedule_request` of anything but an execution, which alone looks at other sessions. -/
def scheduled (s : Session) (env : Env) (r : Request) : Scheduled :=
  if s.pending.valid then { session := s }
  else if !s.managedId r then { session := s }
  else match (s.start r).dispatchOther env (r.withSuccess false) with
    | (s, none) => { session := s }
    | (s, some r) =>
      { session := s.finish r, result := if r.success then some r else none, finished := [r] }

/-- The kernel returns `err` to the blocked worker. -/
def wake (s : Session) (err : Int) : Session × List Request :=
  if s.pending.valid then
    let r := s.pending.withSuccess (err = 0)
    (s.finish r, [r])
  else (s, [])

-- ---------------------------------------------------------------------------
-- What a request does to its session
-- ---------------------------------------------------------------------------

variable {w : World} {s s' : Session} {env : Env} {r : Request}

theorem scheduleRequest_eq (h : r.operation.type ≠ .exec) :
    s.scheduleRequest w env r = .ok (s.scheduled env r) := by
  have hdispatch : ∀ s : Session, s.dispatch w env r = .ok (s.dispatchOther env (r.withSuccess false)) := by
    intro s
    unfold dispatch
    dsimp only
    split
    · rename_i he
      exact absurd he h
    · rfl
  unfold scheduleRequest scheduled
  rw [hdispatch]
  split
  · rfl
  · split
    · rfl
    · rcases (s.start r).dispatchOther env (r.withSuccess false) with ⟨s', _ | r'⟩ <;> rfl

/-- The sessions differ in their slots only. -/
structure SlotsOnly (s s' : Session) : Prop where
  buffers : s'.buffers = s.buffers
  vramLocals : s'.vramLocals = s.vramLocals
  nextSerial : s'.nextSerial = s.nextSerial
  ctxId : s'.ctxId = s.ctxId
  syncId : s'.syncId = s.syncId
  pendingSyncobjWait : s'.pendingSyncobjWait = s.pendingSyncobjWait
  pendingWait : s'.pendingWait = s.pendingWait

theorem slotsOnly_slots (s : Session) (pending completed : Request) :
    SlotsOnly s { s with pending, completed } := ⟨rfl, rfl, rfl, rfl, rfl, rfl, rfl⟩

theorem SlotsOnly.trans (h : SlotsOnly s s') (h' : SlotsOnly s' s'') : SlotsOnly s s'' where
  buffers := h'.buffers.trans h.buffers
  vramLocals := h'.vramLocals.trans h.vramLocals
  nextSerial := h'.nextSerial.trans h.nextSerial
  ctxId := h'.ctxId.trans h.ctxId
  syncId := h'.syncId.trans h.syncId
  pendingSyncobjWait := h'.pendingSyncobjWait.trans h.pendingSyncobjWait
  pendingWait := h'.pendingWait.trans h.pendingWait

/-- A request either is refused and leaves the session alone, or goes to the worker. -/
theorem scheduled_cases (s : Session) (env : Env) (r : Request) :
    ((s.pending.valid ∨ s.managedId r = false) ∧ s.scheduled env r = { session := s }) ∨
    (s.pending.valid = false ∧ s.managedId r = true ∧
      ((∃ s', (s.start r).dispatchOther env (r.withSuccess false) = (s', none) ∧
        s.scheduled env r = { session := s' }) ∨
      ∃ s' r', (s.start r).dispatchOther env (r.withSuccess false) =
          (s', some r') ∧
        s.scheduled env r =
          { session := s'.finish r', result := if r'.success then some r' else none, finished := [r'] })) := by
  unfold scheduled
  by_cases hpending : s.pending.valid
  · exact .inl ⟨.inl hpending, if_pos hpending⟩
  · rw [if_neg hpending]
    by_cases hmanaged : s.managedId r
    · refine .inr ⟨by simpa using hpending, hmanaged, ?_⟩
      simp only [hmanaged, Bool.not_true, Bool.false_eq_true, if_false]
      rcases hd : (s.start r).dispatchOther env (r.withSuccess false) with ⟨s', _ | r'⟩
      · exact .inl ⟨s', rfl, rfl⟩
      · exact .inr ⟨s', r', rfl, rfl⟩
    · have hmanaged : s.managedId r = false := by simpa using hmanaged
      exact .inl ⟨.inr hmanaged, by simp [hmanaged]⟩

/-- All but the allocating and freeing requests leave the buffers alone. -/
theorem slotsOnly_dispatchOther (halloc : r.operation.type ≠ .alloc) (hfree : r.operation.type ≠ .free) :
    (s.dispatchOther env r).1 = s := by
  unfold dispatchOther
  dsimp only
  split
  all_goals first
    | exact absurd ‹_› halloc
    | exact absurd ‹_› hfree
    | rfl
    | (split <;> rfl)
    | (split; rfl; split <;> rfl)

/-- The slots are filled and cleared around the dispatch, and the worker does not know
the `Vram_local`s. -/
theorem dispatch_frame (h : s.dispatch w env r = .ok (t, result)) :
    t.completed = s.completed ∧ t.vramLocals = s.vramLocals := by
  have hother : (s.dispatchOther env (r.withSuccess false)).1.completed = s.completed ∧
      (s.dispatchOther env (r.withSuccess false)).1.vramLocals = s.vramLocals := by
    unfold dispatchOther
    dsimp only
    split
    all_goals first
      | exact ⟨rfl, rfl⟩
      | (split <;> exact ⟨rfl, rfl⟩)
      | (split; exact ⟨rfl, rfl⟩; split <;> exact ⟨rfl, rfl⟩)
      | (split; exact ⟨rfl, rfl⟩; split; exact ⟨rfl, rfl⟩; split <;> exact ⟨rfl, rfl⟩)
  unfold dispatch at h
  dsimp only at h
  split at h
  · cases he : dispatchExec w s env (r.withSuccess false) with
    | error f => simp [he, Except.map] at h
    | ok r' =>
      simp only [he, Except.map, Except.ok.injEq, Prod.mk.injEq] at h
      rw [← h.1]
      exact ⟨rfl, rfl⟩
  · rw [Except.ok.injEq] at h
    rw [h] at hother
    exact hother

theorem scheduleRequest_vramLocals (h : s.scheduleRequest w env r = .ok b) :
    b.session.vramLocals = s.vramLocals := by
  unfold scheduleRequest at h
  split at h
  · obtain rfl := pure_ok.mp h
    rfl
  · split at h
    · obtain rfl := pure_ok.mp h
      rfl
    · obtain ⟨⟨t, res⟩, hd, h⟩ := bind_ok.mp h
      have hframe := (dispatch_frame hd).2
      cases res with
      | none =>
        obtain rfl := pure_ok.mp h
        exact hframe
      | some r' =>
        obtain rfl := pure_ok.mp h
        exact hframe

theorem scheduled_slotsOnly (halloc : r.operation.type ≠ .alloc) (hfree : r.operation.type ≠ .free) :
    SlotsOnly s (s.scheduled env r).session := by
  have hsame : ∀ s : Session, (s.dispatchOther env (r.withSuccess false)).1 = s :=
    fun s => slotsOnly_dispatchOther halloc hfree
  rcases scheduled_cases s env r with ⟨-, he⟩ | ⟨-, -, ⟨s', hd, he⟩ | ⟨s', r', hd, he⟩⟩
  · rw [he]
    exact slotsOnly_slots s s.pending s.completed
  · obtain rfl : s.start r = s' := by simpa [hd] using (hsame (s.start r)).symm
    rw [he]
    exact slotsOnly_slots s r {}
  · obtain rfl : s.start r = s' := by simpa [hd] using (hsame (s.start r)).symm
    rw [he]
    exact slotsOnly_slots s {} r'

theorem dispatch_exec (hexec : r.operation.type = .exec) : s.dispatch w env r =
    (dispatchExec w s env (r.withSuccess false)).map fun r' => (s, some r') := by
  have hexec' : (r.withSuccess false).operation.type = .exec := hexec
  unfold dispatch
  dsimp only
  rw [hexec']

/-- Only the dispatch of an execution can fail. -/
theorem scheduleRequest_exec_error (hexec : r.operation.type = .exec) :
    s.scheduleRequest w env r = .error f ↔ s.pending.valid = false ∧ s.managedId r = true ∧
      dispatchExec w (s.start r) env (r.withSuccess false) = .error f := by
  unfold scheduleRequest
  rw [dispatch_exec hexec]
  cases s.pending.valid with
  | true => simp [pure, Except.pure]
  | false =>
    cases s.managedId r with
    | false => simp [pure, Except.pure]
    | true =>
      cases hd : dispatchExec w (s.start r) env (r.withSuccess false) with
      | error f' => simp [Except.map, bind, Except.bind]
      | ok r' => simp [Except.map, bind, Except.bind, pure, Except.pure]

/-- An execution looks at buffers, and leaves them alone. -/
theorem scheduleRequest_slotsOnly (halloc : r.operation.type ≠ .alloc) (hfree : r.operation.type ≠ .free)
    (h : s.scheduleRequest w env r = .ok a) : SlotsOnly s a.session := by
  by_cases hexec : r.operation.type = .exec
  · unfold scheduleRequest at h
    rw [dispatch_exec hexec] at h
    split at h
    · obtain rfl := Except.ok.inj h
      exact slotsOnly_slots s s.pending s.completed
    · split at h
      · obtain rfl := Except.ok.inj h
        exact slotsOnly_slots s s.pending s.completed
      · cases hd : dispatchExec w (s.start r) env (r.withSuccess false) with
        | error f =>
          rw [hd] at h
          cases h
        | ok r' =>
          rw [hd] at h
          obtain rfl := Except.ok.inj h
          exact slotsOnly_slots s {} r'
  · rw [scheduleRequest_eq hexec] at h
    obtain rfl := Except.ok.inj h
    exact scheduled_slotsOnly halloc hfree

/-- An allocation that succeeds adds a new buffer object, and leaves the slot free. -/
theorem scheduled_alloc (s : Session) (env : Env) (htype : r.operation.type = .alloc) :
    ((s.scheduled env r).result = none ∧ SlotsOnly s (s.scheduled env r).session) ∨
    ∃ b : BufferObject, b.serial = s.nextSerial ∧ (s.scheduled env r).result.isSome ∧
      (s.scheduled env r).session.pending = {} ∧
      SlotsOnly { s with
        buffers := s.buffers.insert r.operation.id b
        nextSerial := s.nextSerial + 1 } (s.scheduled env r).session := by
  have hdispatch : ((s.start r).dispatchOther env (r.withSuccess false) =
        (s.start r, some (r.withSuccess false))) ∨
      ∃ b : BufferObject, b.serial = s.nextSerial ∧
        (s.start r).dispatchOther env (r.withSuccess false) =
          ({ s.start r with
              buffers := s.buffers.insert r.operation.id b
              nextSerial := s.nextSerial + 1 }, some (r.succeeded r.operation)) := by
    have htype' : (r.withSuccess false).operation.type = .alloc := htype
    unfold dispatchOther
    simp only [htype']
    split
    · exact .inl rfl
    · split
      · exact .inl rfl
      · split
        · exact .inl rfl
        · exact .inr ⟨_, rfl, rfl⟩
  rcases scheduled_cases s env r with ⟨-, he⟩ | ⟨-, -, ⟨s', hd, he⟩ | ⟨s', r', hd, he⟩⟩
  · rw [he]
    exact .inl ⟨rfl, slotsOnly_slots s s.pending s.completed⟩
  · rcases hdispatch with hd' | ⟨b, -, hd'⟩ <;> simp [hd'] at hd
  · rcases hdispatch with hd' | ⟨b, hb, hd'⟩
    · obtain ⟨rfl, hr⟩ := Prod.mk.inj (hd'.symm.trans hd)
      obtain rfl := Option.some.inj hr
      rw [he]
      exact .inl ⟨rfl, slotsOnly_slots s {} _⟩
    · obtain ⟨rfl, hr⟩ := Prod.mk.inj (hd'.symm.trans hd)
      obtain rfl := Option.some.inj hr
      rw [he]
      exact .inr ⟨b, hb, rfl, rfl, ⟨rfl, rfl, rfl, rfl, rfl, rfl, rfl⟩⟩

/-- A buffer object is freed unless another request is pending. -/
theorem scheduled_free (s : Session) (env : Env) (htype : r.operation.type = .free) :
    ((s.pending.valid ∨ s.buffers.lookup r.operation.id = none) ∧
      s.scheduled env r = { session := s }) ∨
    (s.pending.valid = false ∧ (s.buffers.lookup r.operation.id).isSome ∧
      SlotsOnly { s with buffers := s.buffers.erase r.operation.id } (s.scheduled env r).session) := by
  have hmanaged : s.managedId r = (s.buffers.lookup r.operation.id).isSome := by
    simp [managedId, htype]
  rcases scheduled_cases s env r with ⟨hno, he⟩ | ⟨hpending, hm, hgo⟩
  · refine .inl ⟨hno.imp_right fun hm => ?_, he⟩
    simpa [hmanaged] using hm
  · rw [hmanaged] at hm
    obtain ⟨b, hb⟩ := Option.isSome_iff_exists.mp hm
    have hdispatch : (s.start r).dispatchOther env (r.withSuccess false) =
        ({ s.start r with buffers := s.buffers.erase r.operation.id },
          some (r.succeeded r.operation)) := by
      have htype' : (r.withSuccess false).operation.type = .free := htype
      have hb' : (s.start r).buffers.lookup (r.withSuccess false).operation.id = some b := hb
      unfold dispatchOther
      simp only [htype', hb']
      rfl
    refine .inr ⟨hpending, hm, ?_⟩
    rcases hgo with ⟨s', hd, -⟩ | ⟨s', r', hd, he⟩
    · simp [hdispatch] at hd
    · obtain ⟨rfl, -⟩ := Prod.mk.inj (hdispatch.symm.trans hd)
      rw [he]
      exact ⟨rfl, rfl, rfl, rfl, rfl, rfl, rfl⟩

end Session

end Allwinner.Gpu
