import Mathlib.Data.List.Nodup
import Allwinner.Scp.Mailbox

/-!
# Sessions and the scheduler

The sessions of the ARM driver and what the driver does for them: it submits one
pending request at a time and delivers the response to the session that the
sequence number belongs to. Along with the new state the operations return what
they do in the sight of the clients and the SCP.
-/

namespace Allwinner.Scp

inductive RequestError where
  | tooLarge
  deriving DecidableEq, Repr

inductive ResponseError where
  | unknown | tooLarge
  deriving DecidableEq, Repr

/-- `Response_result`: the number of bytes, or an error. -/
abbrev ResponseResult := Except ResponseError Nat

/-- `Session_component`. The identity stands for the object's place in memory. -/
structure Session where
  id : Nat
  /-- the dataspace shared with the client -/
  ds : Bytes := fun _ => 0
  requestLen : Nat := 0
  /-- the request while executed by the SCP -/
  execId : Option UInt32 := none
  responseResult : ResponseResult := .error .unknown
  responseCount : UInt32 := 0

inductive Obs where
  /-- a request of the session was accepted -/
  | accepted (id : Nat)
  /-- the session's request went to the SCP, which reads `text` -/
  | submitted (id : Nat) (seq : UInt32) (text : List Byte)
  /-- the session got the response to `seq` -/
  | delivered (id : Nat) (seq : UInt32) (response : Except ResponseError (List Byte))

namespace Session

/-- `matches`. -/
def matchesSeq (s : Session) (seq : UInt32) : Bool := s.execId = some seq

/-- `_request`, in front of the scheduling. -/
def request (s : Session) (len : Nat) : Except RequestError Session :=
  if len > MAX_REQUEST_LEN then .error .tooLarge
  else .ok { s with requestLen := len, responseResult := .error .unknown }

/-- `with_pending_request` for the scheduler's functor. -/
def withPendingRequest (s : Session) (p : Port) : Port × Session × List Obs :=
  if s.requestLen = 0 then (p, s, [])
  else
    match p.submitToScp s.ds s.requestLen with
    | (p, .ok seq) =>
      (p, { s with execId := some seq, requestLen := 0 }, [.submitted s.id seq p.mib.scpText])
    -- the error is logged
    | (p, .error _) => (p, { s with execId := none, requestLen := 0 }, [])

/-- The text the client finds in its dataspace, or an error. -/
def response (s : Session) : Except ResponseError (List Byte) := s.responseResult.map s.ds.take

/-- `deliver_response` for the functor of `_handle_irq`. -/
def deliverResponse (s : Session) (p : Port) : Session :=
  let (ds, retrieved) := p.retrieveFromScp s.ds MAX_RESPONSE_LEN
  let result : ResponseResult := match retrieved with
    | .ok len => .ok len
    | .error _ => .error .tooLarge
  { s with ds, responseResult := result, responseCount := s.responseCount + 1, execId := none }

end Session

-- ---------------------------------------------------------------------------
-- The driver
-- ---------------------------------------------------------------------------

/-- `schedule`: every session in turn, as long as the SCP is idle. -/
def scheduleSessions (p : Port) : List Session → Port × List Session × List Obs
  | [] => (p, [], [])
  | s :: ss =>
    let (p, s, o) := if p.state ≠ .idle then (p, s, []) else s.withPendingRequest p
    let (p, ss, os) := scheduleSessions p ss
    (p, s :: ss, o ++ os)

/-- The response to `seq` for every session that matches. -/
def deliverSessions (p : Port) (seq : UInt32) : List Session → List Session × List Obs
  | [] => ([], [])
  | s :: ss =>
    let (s, o) : Session × List Obs :=
      if s.matchesSeq seq then
        let s := s.deliverResponse p
        (s, [.delivered s.id seq s.response])
      else (s, [])
    let (ss, os) := deliverSessions p seq ss
    (s :: ss, o ++ os)

structure Driver where
  port : Port := {}
  sessions : List Session := []

namespace Driver

def schedule (d : Driver) : Driver × List Obs :=
  let (port, sessions, o) := scheduleSessions d.port d.sessions
  ({ port, sessions }, o)

/-- `_handle_irq`, with the value the SCP put into channel 1, if any. -/
def handleIrq (d : Driver) (value : Option UInt32) : Driver × List Obs :=
  let (d, o) : Driver × List Obs := match value with
    | none => (d, [])
    | some seq =>
      let port := { d.port with lastResponse := seq }
      let (sessions, o) := deliverSessions port seq d.sessions
      ({ port := { port with state := .idle }, sessions }, o)
  let (d, o') := d.schedule
  (d, o ++ o')

/-- The session with the identity of `s` becomes `s`. -/
def put (d : Driver) (s : Session) : Driver :=
  { d with sessions := d.sessions.map fun t => if t.id = s.id then s else t }

/-- `_request` of session `s`, with the scheduling of an accepted request. -/
def request (d : Driver) (s : Session) (len : Nat) : Except RequestError (Driver × List Obs) :=
  (s.request len).map fun s =>
    let (d, o) := (d.put s).schedule
    (d, .accepted s.id :: o)

end Driver

-- ---------------------------------------------------------------------------
-- One session at a time
-- ---------------------------------------------------------------------------

/-- Where the request of a session is. -/
inductive Phase where
  | idle
  | pending
  | executing (seq : UInt32)
  deriving DecidableEq, Repr

namespace Session

def phase (s : Session) : Phase :=
  match s.execId with
  | some seq => .executing seq
  | none => if s.requestLen = 0 then .idle else .pending

/-- The session has a request pending or executing. -/
def Outstanding (s : Session) : Prop := s.phase ≠ .idle

instance (s : Session) : Decidable s.Outstanding := inferInstanceAs (Decidable (_ ≠ _))

/-- A request that fits, and none that waits behind the one in execution. -/
structure Proper (s : Session) : Prop where
  fits : s.requestLen ≤ MAX_REQUEST_LEN
  single : s.execId.isSome → s.requestLen = 0

/-- The session once its request went to the SCP. -/
def submitted (s : Session) (seq : UInt32) : Session :=
  { s with execId := some seq, requestLen := 0 }

variable {s : Session} {p : Port}

theorem phase_pending (hs : s.Proper) (h : s.requestLen ≠ 0) : s.phase = .pending := by
  have hnone : s.execId = none := by
    by_contra he
    exact h (hs.single (Option.isSome_iff_ne_none.mpr he))
  simp [phase, hnone, h]

theorem phase_executing (h : s.execId = some seq) : s.phase = .executing seq := by
  simp [phase, h]

theorem phase_submitted : (s.submitted seq).phase = .executing seq := rfl

theorem proper_submitted : (s.submitted seq).Proper := ⟨Nat.zero_le _, fun _ => rfl⟩

@[simp] theorem id_deliverResponse : (s.deliverResponse p).id = s.id := rfl
@[simp] theorem requestLen_deliverResponse : (s.deliverResponse p).requestLen = s.requestLen := rfl
@[simp] theorem execId_deliverResponse : (s.deliverResponse p).execId = none := rfl

theorem Proper.phase_deliverResponse (hs : s.Proper) (hexec : s.execId = some seq) :
    (s.deliverResponse p).phase = .idle := by
  simp [phase, hs.single (Option.isSome_of_eq_some hexec)]

theorem response_deliverResponse : (s.deliverResponse p).response =
    if p.mob.count.toNat < 1000 then .ok p.mob.scpText else .error .tooLarge := by
  by_cases h : p.mob.count.toNat < 1000
  · have hmax : p.mob.count.toNat ≤ MAX_RESPONSE_LEN := h.le
    simp [deliverResponse, response, retrieveFromScp_ok p s.ds h hmax, h, Except.map, take_copyFromScp]
  · have hsat : 1000 ≤ p.mob.count.toNat := not_lt.mp h
    simp [deliverResponse, response, retrieveFromScp_saturated p hsat, h, Except.map]

/-- The scheduler's functor cannot fail on an idle port. -/
theorem withPendingRequest_eq (hs : s.Proper) (hp : p.state = .idle) (h : s.requestLen ≠ 0) :
    s.withPendingRequest p = (p.submitted s.ds s.requestLen, s.submitted (p.lastSubmit + 1),
      [.submitted s.id (p.lastSubmit + 1) (s.ds.take s.requestLen)]) := by
  have hcap : s.requestLen ≤ SharedBuffer.CAPACITY := hs.fits.trans (by decide)
  unfold withPendingRequest
  rw [if_neg h, submitToScp_idle p hp hcap]
  simp [scpText_submitted p hs.fits, submitted]

end Session

-- ---------------------------------------------------------------------------
-- All sessions
-- ---------------------------------------------------------------------------

variable {p : Port} {ss : List Session}

theorem scheduleSessions_of_busy (hp : p.state ≠ .idle) : scheduleSessions p ss = (p, ss, []) := by
  induction ss with
  | nil => rfl
  | cons s ss ih => simp [scheduleSessions, hp, ih]

/-- The scheduler finds nothing to do, or submits the first pending request. -/
theorem scheduleSessions_cases (p : Port) (hss : ∀ s ∈ ss, s.Proper) :
    (p.state ≠ .idle ∨ ∀ s ∈ ss, s.requestLen = 0) ∧ scheduleSessions p ss = (p, ss, []) ∨
    ∃ pre s post, ss = pre ++ s :: post ∧ p.state = .idle ∧ s.requestLen ≠ 0 ∧
      scheduleSessions p ss = (p.submitted s.ds s.requestLen,
        pre ++ s.submitted (p.lastSubmit + 1) :: post,
        [.submitted s.id (p.lastSubmit + 1) (s.ds.take s.requestLen)]) := by
  by_cases hp : p.state = .idle
  · induction ss with
    | nil => exact .inl ⟨.inr nofun, rfl⟩
    | cons s ss ih =>
      by_cases hs : s.requestLen = 0
      · have hskip : scheduleSessions p (s :: ss) = ((scheduleSessions p ss).1,
            s :: (scheduleSessions p ss).2.1, (scheduleSessions p ss).2.2) := by
          simp [scheduleSessions, hp, Session.withPendingRequest, hs]
        rw [hskip]
        rcases ih fun t ht => hss t (by simp [ht]) with ⟨hnone, he⟩ | ⟨pre, t, post, rfl, -, ht, he⟩
        · refine .inl ⟨.inr fun t ht => ?_, by rw [he]⟩
          rcases List.mem_cons.mp ht with rfl | ht
          · exact hs
          · exact (hnone.resolve_left (not_not.mpr hp)) t ht
        · exact .inr ⟨s :: pre, t, post, rfl, hp, ht, by rw [he]; rfl⟩
      · refine .inr ⟨[], s, ss, rfl, hp, hs, ?_⟩
        have hbusy : (p.submitted s.ds s.requestLen).state ≠ .idle := nofun
        simp [scheduleSessions, hp, Session.withPendingRequest_eq (hss s (by simp)) hp hs,
          scheduleSessions_of_busy hbusy]
  · exact .inl ⟨.inl hp, scheduleSessions_of_busy hp⟩

/-- The scheduler does nothing but submit. -/
theorem scheduleSessions_obs (h : o ∈ (scheduleSessions p ss).2.2) :
    ∃ id seq text, o = .submitted id seq text := by
  induction ss generalizing p with
  | nil => cases h
  | cons s ss ih =>
    unfold scheduleSessions at h
    rcases List.mem_append.mp h with h | h
    · split at h
      · cases h
      · unfold Session.withPendingRequest at h
        split at h
        · cases h
        · split at h
          · exact ⟨_, _, _, List.mem_singleton.mp h⟩
          · cases h
    · exact ih h

theorem deliverSessions_eq (p : Port) (seq : UInt32) (ss : List Session) :
    deliverSessions p seq ss =
      (ss.map fun s => if s.matchesSeq seq then s.deliverResponse p else s,
        (ss.filter (·.matchesSeq seq)).map fun s =>
          .delivered s.id seq (s.deliverResponse p).response) := by
  induction ss with
  | nil => rfl
  | cons s ss ih =>
    by_cases hs : s.matchesSeq seq
    · simp [deliverSessions, ih, hs]
    · simp [deliverSessions, ih, hs]

end Allwinner.Scp
