import Mathlib.Data.List.TakeWhile
import Allwinner.Gpu.Calls

/-!
# Submissions

A client describes a job in a buffer it shares with the driver. An execution replaces the
client's buffer ids there by handles of the kernel, and the wrapper of the `ioctl` turns
the offsets there into pointers. Both are done in place, and neither is undone.
-/

namespace Allwinner.Gpu

/-- `drm_lima_gem_submit`, and the `nr_bos` references at `bos`. -/
structure SubmitBuffer where
  ctx : Nat := 0
  pipe : Nat := 0
  bos : BitVec 64 := 0
  frame : BitVec 64 := 0
  outSync : Nat := 0
  refs : List SubmitBo := []

def SubmitBuffer.submit (buf : SubmitBuffer) : Submit := { bos := buf.refs, pipe := buf.pipe }

/-- `lx_drm_gem_submit_in`, for a submission at address `base`. -/
def SubmitBuffer.relocate (base : BitVec 64) (buf : SubmitBuffer) : SubmitBuffer :=
  { buf with bos := buf.bos + base, frame := buf.frame + base }

/-- The request as the worker leaves it, the client's buffer, and the submission that
entered the job queue of the kernel. -/
structure Execution where
  request : Request
  buffer : SubmitBuffer
  queued : Option SubmitBuffer := none

-- ---------------------------------------------------------------------------
-- The execution of a submission
-- ---------------------------------------------------------------------------

namespace Session

variable (w : World) (s : Session) (env : Env) (base : BitVec 64)

/-- The handle that takes the place of the id in a reference. -/
def handleFor (bo : SubmitBo) : Option Nat :=
  bo.handle.bind fun id => (s.vramLocals.lookup id).bind (·.importHandle)

/-- The loop over the references, which tells whether an error came up. -/
def replaceIds : List SubmitBo → Except Fault (List SubmitBo × Bool)
  | [] => .ok ([], false)
  | bo :: bos =>
    match bo.handle with
    | none => .ok (bo :: bos, true)
    | some id => do
      let _ ← w.withBo s id bo.read
      match s.handleFor bo with
      | none => return (bo :: bos, true)
      | some handle =>
        let (bos, err) ← replaceIds bos
        return ({ bo with handle := some handle } :: bos, err)

/-- `lx_drm_ioctl_lima_gem_submit`. The command is an `IOC_IN` only, and the kernel copies
nothing back. -/
def ioctlGemSubmit (r : Request) (buf : SubmitBuffer) : Execution :=
  let buf := buf.relocate base
  match env.gemSubmit with
  | none => ⟨r, buf, none⟩
  | some seqno => ⟨r.succeeded { r.operation with seqno }, buf, some buf⟩

/-- `EXEC`, for a submission that is attached at `base`. -/
def executeSubmission (r : Request) (buf : SubmitBuffer) : Except Fault Execution := do
  if !(← w.withBo s r.operation.id true) || base = 0 then return ⟨r, buf, none⟩
  let (refs, err) ← replaceIds w s buf.refs
  let buf := { buf with refs, ctx := r.operation.ctxId }
  if h : buf.pipe < MAX_PIPE then
    let buf := { buf with outSync := r.operation.syncobjId ⟨buf.pipe, h⟩ }
    if err then return ⟨r, buf, none⟩
    return ioctlGemSubmit env base r buf
  else return ⟨r, buf, none⟩

/-- The request `execute` schedules. -/
def execRequest (id : VramId) : Request :=
  { operation := { type := .exec, id, ctxId := s.ctxId, syncobjId := s.syncId } }

/-- `execute` of the submission in buffer `id`. -/
def scheduleSubmission (id : VramId) (buf : SubmitBuffer) : Except Fault Execution :=
  if s.pending.valid || !s.managedId (s.execRequest id) then .ok ⟨s.execRequest id, buf, none⟩
  else executeSubmission w (s.start (s.execRequest id)) env base (s.execRequest id) buf

end Session

-- ---------------------------------------------------------------------------
-- What an execution should do
-- ---------------------------------------------------------------------------

/-- The reference with the handle the session holds for its id. -/
def Session.Replaced (s : Session) (bo bo' : SubmitBo) : Prop :=
  ∃ handle, s.handleFor bo = some handle ∧ bo' = { bo with handle := some handle }

/-- A submission is queued with handles for all its ids, or the request fails and the client
finds its submission as it was. -/
structure Transactional (s : Session) (buf : SubmitBuffer) (e : Execution) : Prop where
  queued : e.request.success = e.queued.isSome
  replaced : ∀ b ∈ e.queued, List.Forall₂ s.Replaced buf.refs b.refs
  refs : e.request.success = false → e.buffer.refs = buf.refs
  bos : e.request.success = false → e.buffer.bos = buf.bos
  frame : e.request.success = false → e.buffer.frame = buf.frame

/-- The worker gets to see the submission. -/
structure Session.Opened (s : Session) (base : BitVec 64) (id : VramId) : Prop where
  free : s.pending.valid = false
  managed : (s.buffers.lookup id).isSome
  known : (s.vramLocals.lookup id).isSome
  attached : base ≠ 0

/-- The session holds a handle for the id. -/
def Session.knows (s : Session) (bo : SubmitBo) : Bool := (s.handleFor bo).isSome

def Session.rename (s : Session) (bo : SubmitBo) : SubmitBo :=
  { bo with handle := (s.handleFor bo).or bo.handle }

/-- The kernel gets the submission and takes it, or it is not for the kernel and the ids before the
first unknown one are the handles already. -/
def Session.Submittable (s : Session) (env : Env) (buf : SubmitBuffer) : Prop :=
  if buf.refs.all s.knows ∧ buf.pipe < MAX_PIPE then env.gemSubmit.isSome = true
  else ∀ bo ∈ buf.refs.takeWhile s.knows, s.handleFor bo = bo.handle

-- ---------------------------------------------------------------------------
-- What it does
-- ---------------------------------------------------------------------------

namespace Session

variable {w : World} {s : Session} {env : Env} {base : BitVec 64} {id : VramId} {buf : SubmitBuffer}
  {e : Execution} {r : Request}

/-- The loop over the references does what the loop of `dispatchExec` tells of it. -/
theorem replaceIds_translateBos (bos : List SubmitBo) :
    (replaceIds w s bos).map (·.2) = translateBos w s bos := by
  induction bos with
  | nil => rfl
  | cons bo bos ih =>
    unfold replaceIds translateBos
    cases hid : bo.handle with
    | none => rfl
    | some id =>
      have hhandle : s.handleFor bo = (s.vramLocals.lookup id).bind (·.importHandle) := by
        simp [handleFor, hid]
      simp only [hhandle, bind, Except.bind]
      cases w.withBo s id bo.read with
      | error f => rfl
      | ok found =>
        cases (s.vramLocals.lookup id).bind (·.importHandle) with
        | none => rfl
        | some handle =>
          simp only [← ih]
          cases replaceIds w s bos with
          | error f => rfl
          | ok result => rfl

/-- The worker's model of an execution is this one without the buffer. -/
theorem executeSubmission_dispatchExec (hbase : base ≠ 0) :
    (executeSubmission w s env base r buf).map (·.request) =
      dispatchExec w s { env with submit := buf.submit } r := by
  unfold executeSubmission dispatchExec SubmitBuffer.submit
  rw [← replaceIds_translateBos]
  cases hbo : w.withBo s r.operation.id true with
  | error f => rfl
  | ok found =>
    cases found with
    | false => rfl
    | true =>
      simp only [bind, Except.bind, Bool.not_true, hbase, decide_false, Bool.or_self, Bool.false_eq_true,
        if_false]
      cases replaceIds w s buf.refs with
      | error f => rfl
      | ok result =>
        obtain ⟨refs, err⟩ := result
        by_cases hpipe : buf.pipe < MAX_PIPE
        · cases err with
          | true => simp [hpipe, Except.map, pure, Except.pure]
          | false => cases hsubmit : env.gemSubmit <;>
              simp [hpipe, Except.map, pure, Except.pure, ioctlGemSubmit, hsubmit, Nat.not_le.mpr hpipe]
        · simp [hpipe, Except.map, pure, Except.pure, Nat.not_lt.mp hpipe]

/-- The ids are replaced up to the first that is unknown. -/
theorem replaceIds_spec {bos bos' : List SubmitBo} {err : Bool}
    (h : replaceIds w s bos = .ok (bos', err)) :
    bos' = (bos.takeWhile s.knows).map s.rename ++ bos.dropWhile s.knows ∧ err = !bos.all s.knows := by
  induction bos generalizing bos' err with
  | nil =>
    cases h
    exact ⟨rfl, rfl⟩
  | cons bo bos ih =>
    unfold replaceIds at h
    cases hid : bo.handle with
    | none =>
      have hknows : s.knows bo = false := by simp [knows, handleFor, hid]
      simp only [hid, Except.ok.injEq, Prod.mk.injEq] at h
      simp [hknows, ← h.1, ← h.2]
    | some id =>
      simp only [hid] at h
      obtain ⟨found, -, h⟩ := bind_ok.mp h
      cases hhandle : s.handleFor bo with
      | none =>
        have hknows : s.knows bo = false := by simp [knows, hhandle]
        simp only [hhandle, pure_ok, Prod.mk.injEq] at h
        simp [hknows, ← h.1, ← h.2]
      | some handle =>
        have hknows : s.knows bo = true := by simp [knows, hhandle]
        simp only [hhandle] at h
        obtain ⟨⟨bos'', err'⟩, hrest, h⟩ := bind_ok.mp h
        obtain ⟨hbos, herr⟩ := ih hrest
        rw [pure_ok, Prod.mk.injEq] at h
        rw [← h.1, ← h.2, hbos, herr]
        simp [hknows, rename, hhandle]

theorem withBo_eq {access found : Bool} (h : w.withBo s id access = .ok found) :
    found = (s.vramLocals.lookup id).isSome := by
  unfold World.withBo at h
  cases hvl : s.vramLocals.lookup id with
  | none =>
    rw [hvl] at h
    exact (Except.ok.inj h).symm
  | some vl =>
    simp only [hvl] at h
    obtain ⟨v, -, h⟩ := bind_ok.mp h
    split at h
    · cases h
    · exact (Except.ok.inj h).symm

theorem managedId_execRequest : s.managedId (s.execRequest id) = (s.buffers.lookup id).isSome := rfl

/-- A submission the worker does not get to see is left alone. -/
theorem scheduleSubmission_of_not_opened (hclosed : ¬ s.Opened base id)
    (h : scheduleSubmission w s env base id buf = .ok e) : e = ⟨s.execRequest id, buf, none⟩ := by
  unfold scheduleSubmission at h
  rw [managedId_execRequest] at h
  split at h
  · exact (Except.ok.inj h).symm
  · rename_i hscheduled
    simp only [Bool.or_eq_true, Bool.not_eq_true', not_or, Bool.not_eq_true, Bool.not_eq_false] at hscheduled
    obtain ⟨found, hfound, h⟩ := bind_ok.mp h
    have hfound : found = (s.vramLocals.lookup id).isSome := withBo_eq hfound
    have hunseen : (!found || decide (base = 0)) = true := by
      cases hknown : (s.vramLocals.lookup id).isSome with
      | false => simp [hfound, hknown]
      | true =>
        have hbase : base = 0 := by
          by_contra hbase
          exact hclosed ⟨hscheduled.1, hscheduled.2, hknown, hbase⟩
        simp [hbase]
    rw [if_pos hunseen] at h
    exact (Except.ok.inj h).symm

/-- What became of a submission in the buffer before it was passed to the kernel. -/
def replacedRefs (s : Session) (buf : SubmitBuffer) : List SubmitBo :=
  (buf.refs.takeWhile s.knows).map s.rename ++ buf.refs.dropWhile s.knows

theorem scheduleSubmission_of_opened (hopened : s.Opened base id)
    (h : scheduleSubmission w s env base id buf = .ok e) :
    (buf.refs.all s.knows = true ∧ buf.pipe < MAX_PIPE ∧ ∃ outSync,
      e = ioctlGemSubmit env base (s.execRequest id)
        { buf with refs := s.replacedRefs buf, ctx := s.ctxId, outSync }) ∨
    (¬ (buf.refs.all s.knows = true ∧ buf.pipe < MAX_PIPE) ∧ ∃ outSync,
      e = ⟨s.execRequest id, { buf with refs := s.replacedRefs buf, ctx := s.ctxId, outSync }, none⟩) := by
  unfold scheduleSubmission at h
  rw [managedId_execRequest, hopened.free, hopened.managed] at h
  obtain ⟨found, hfound, h⟩ := bind_ok.mp h
  have hfound : found = true := (withBo_eq hfound).trans hopened.known
  rw [hfound, if_neg (by simpa using hopened.attached)] at h
  obtain ⟨⟨refs, err⟩, hreplace, h⟩ := bind_ok.mp h
  obtain ⟨hrefs, herr⟩ := replaceIds_spec hreplace
  have hrefs : refs = s.replacedRefs buf := hrefs
  have herr : err = !buf.refs.all s.knows := herr
  rw [hrefs, herr] at h
  dsimp only at h
  split at h
  · rename_i hpipe
    cases hall : buf.refs.all s.knows with
    | true =>
      rw [hall] at h
      exact .inl ⟨rfl, hpipe, _, (Except.ok.inj h).symm⟩
    | false =>
      rw [hall] at h
      exact .inr ⟨by simp, _, (Except.ok.inj h).symm⟩
  · rename_i hpipe
    exact .inr ⟨fun hboth => hpipe hboth.2, buf.outSync, (Except.ok.inj h).symm⟩

theorem rename_eq_iff {bo : SubmitBo} (hknows : s.knows bo = true) :
    s.rename bo = bo ↔ s.handleFor bo = bo.handle := by
  obtain ⟨handle, hhandle⟩ := Option.isSome_iff_exists.mp hknows
  cases bo
  simp [rename, hhandle]

theorem replacedRefs_eq_iff :
    s.replacedRefs buf = buf.refs ↔ ∀ bo ∈ buf.refs.takeWhile s.knows, s.handleFor bo = bo.handle := by
  have hsplit : buf.refs = buf.refs.takeWhile s.knows ++ buf.refs.dropWhile s.knows :=
    List.takeWhile_append_dropWhile.symm
  have hsame : s.replacedRefs buf = buf.refs ↔
      (buf.refs.takeWhile s.knows).map s.rename = (buf.refs.takeWhile s.knows).map id := by
    conv_lhs => rhs; rw [hsplit]
    rw [replacedRefs, List.append_cancel_right_eq, List.map_id]
  rw [hsame, List.map_inj_left]
  exact forall₂_congr fun bo hbo => rename_eq_iff (List.mem_takeWhile_imp hbo)

theorem replaced_of_all (hall : buf.refs.all s.knows = true) :
    List.Forall₂ s.Replaced buf.refs (s.replacedRefs buf) := by
  have hknows : ∀ bo ∈ buf.refs, s.knows bo = true := List.all_eq_true.mp hall
  have hrefs : s.replacedRefs buf = buf.refs.map s.rename := by
    rw [replacedRefs, List.takeWhile_eq_self_iff.mpr hknows, List.dropWhile_eq_nil_iff.mpr hknows,
      List.append_nil]
  rw [hrefs, List.forall₂_map_right_iff, List.forall₂_same]
  intro bo hbo
  obtain ⟨handle, hhandle⟩ := Option.isSome_iff_exists.mp (hknows bo hbo)
  exact ⟨handle, hhandle, by simp [rename, hhandle]⟩

/-- An execution is transactional if the kernel takes the submission, or there was nothing
to replace before it failed. What the worker gets to see is what its model executes. -/
theorem scheduleSubmission_transactional_iff (h : scheduleSubmission w s env base id buf = .ok e) :
    (Transactional s buf e ↔ (s.Opened base id → s.Submittable env buf)) ∧
      ∀ r, base ≠ 0 → (executeSubmission w s env base r buf).map (·.request) =
        dispatchExec w s { env with submit := buf.submit } r := by
  refine ⟨?_, fun r hbase => executeSubmission_dispatchExec hbase⟩
  by_cases hopened : s.Opened base id
  · have himp : (s.Opened base id → s.Submittable env buf) ↔ s.Submittable env buf :=
      ⟨fun h => h hopened, fun h _ => h⟩
    rw [himp]
    unfold Submittable
    rcases scheduleSubmission_of_opened hopened h with ⟨hall, hpipe, outSync, rfl⟩ | ⟨hnot, outSync, rfl⟩
    · rw [if_pos ⟨hall, hpipe⟩]
      unfold ioctlGemSubmit
      cases hsubmit : env.gemSubmit with
      | none =>
        -- the kernel refuses, and the offsets stay pointers
        refine ⟨fun ht => absurd (ht.bos rfl) ?_, by simp⟩
        intro hbos
        exact hopened.attached (by simpa [SubmitBuffer.relocate] using hbos)
      | some seqno =>
        refine ⟨fun _ => rfl, fun _ => ⟨rfl, ?_, by rintro ⟨⟩, by rintro ⟨⟩, by rintro ⟨⟩⟩⟩
        intro b hb
        cases hb
        exact replaced_of_all hall
    · rw [if_neg hnot, ← replacedRefs_eq_iff]
      exact ⟨fun ht => ht.refs rfl, fun hrefs => ⟨rfl, by rintro b ⟨⟩, fun _ => hrefs, fun _ => rfl, fun _ => rfl⟩⟩
  · rw [scheduleSubmission_of_not_opened hopened h]
    exact ⟨fun _ hopen => absurd hopen hopened,
      fun _ => ⟨rfl, by rintro b ⟨⟩, fun _ => rfl, fun _ => rfl, fun _ => rfl⟩⟩

end Session

-- ---------------------------------------------------------------------------
-- Submissions of one client
-- ---------------------------------------------------------------------------

/-- A client that submits from its buffer 4 and imported buffer 5. -/
def client : Session where
  buffers := AList.insert 4 { serial := 0, handle := 2, va := 0 } ∅
  vramLocals := AList.insert 5 { vramCap := some 0, importHandle := some 9 }
    (AList.insert 4 { vramCap := some 0 } ∅)

def serving : World where
  sessions := Function.update (fun _ => none) 0 (some client)
  vrams := Function.update (fun _ => none) 0 (some { bo := 0, owner := 0 })

def job (ids : List VramId) (pipe : Nat) : SubmitBuffer where
  pipe := pipe
  bos := 0x40
  frame := 0x80
  refs := ids.map fun id => { handle := some id }

theorem submission_queued :
    ∃ e, client.scheduleSubmission serving { gemSubmit := some 3 } 0x1000 4 (job [5] 0) = .ok e ∧
      Transactional client (job [5] 0) e := by
  obtain ⟨e, he⟩ : ∃ e, client.scheduleSubmission serving { gemSubmit := some 3 } 0x1000 4 (job [5] 0) =
      .ok e := ⟨_, rfl⟩
  refine ⟨e, he, (Session.scheduleSubmission_transactional_iff he).1.mpr fun _ => ?_⟩
  simp [Session.Submittable, job, client, Session.knows, Session.handleFor, MAX_PIPE]

/-- After an unknown id, for a pipe there is not, and when the kernel refuses, the client finds the
handle 9 in place of its id 5. -/
theorem submission_not_restored :
    (∃ e, client.scheduleSubmission serving { gemSubmit := some 3 } 0x1000 4 (job [5, 6] 0) = .ok e ∧
      e.buffer.refs.map (·.handle) = [some 9, some 6] ∧ ¬ Transactional client (job [5, 6] 0) e) ∧
    (∃ e, client.scheduleSubmission serving { gemSubmit := some 3 } 0x1000 4 (job [5] 2) = .ok e ∧
      e.buffer.refs.map (·.handle) = [some 9] ∧ ¬ Transactional client (job [5] 2) e) ∧
    ∃ e, client.scheduleSubmission serving {} 0x1000 4 (job [5] 0) = .ok e ∧
      e.buffer.refs.map (·.handle) = [some 9] ∧ e.buffer.bos = 0x1040 ∧ e.buffer.frame = 0x1080 ∧
      ¬ Transactional client (job [5] 0) e := by
  refine ⟨⟨_, rfl, rfl, fun h => ?_⟩, ⟨_, rfl, rfl, fun h => ?_⟩, _, rfl, rfl, rfl, rfl, fun h => ?_⟩
  · cases congrArg (List.map (·.handle)) (h.refs rfl)
  · cases congrArg (List.map (·.handle)) (h.refs rfl)
  · cases congrArg (List.map (·.handle)) (h.refs rfl)

end Allwinner.Gpu
