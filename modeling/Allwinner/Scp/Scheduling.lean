import Allwinner.Library.Runs
import Allwinner.Scp.Sessions

/-!
# Scheduling of requests

The driver together with its clients and the SCP: sessions come and go, clients
request, the SCP answers. A request has a life of its own, accepted, submitted,
answered; whatever the order of events, every session lives through it one
request at a time.
-/

namespace Allwinner.Scp

open Library (System)

variable {id : Nat} {o o' log : List Obs}

-- ---------------------------------------------------------------------------
-- The life of a request
-- ---------------------------------------------------------------------------

/-- What happens to the requests of one session. -/
inductive Move where
  | accept
  | submit (seq : UInt32)
  | answer (seq : UInt32)
  deriving DecidableEq

/-- The moves of a session that has one request at a time: it is accepted, then
submitted, then answered under the number it was submitted with. -/
inductive History : List Move → Phase → Prop where
  | nil : History [] .idle
  | accept : History h .idle → History (h ++ [.accept]) .pending
  | submit : History h .pending → History (h ++ [.submit seq]) (.executing seq)
  | answer : History h (.executing seq) → History (h ++ [.answer seq]) .idle

/-- The session waits for an answer after the moves. -/
def waits (isWaiting : Bool) : List Move → Bool
  | [] => isWaiting
  | .accept :: ms => waits true ms
  | .submit _ :: ms => waits isWaiting ms
  | .answer _ :: ms => waits false ms

theorem waits_append (b : Bool) (ms ms' : List Move) : waits b (ms ++ ms') = waits (waits b ms) ms' := by
  induction ms generalizing b with
  | nil => rfl
  | cons m ms ih => cases m <;> exact ih _

theorem History.waits_iff (h : History ms phase) : waits false ms = true ↔ phase ≠ .idle := by
  induction h with
  | nil => simp [waits]
  | accept => simp [waits_append, waits]
  | submit _ ih => simp [waits_append, waits, ih]
  | answer => simp [waits_append, waits]

def Obs.move (id : Nat) : Obs → Option Move
  | .accepted j => if j = id then some .accept else none
  | .submitted j seq _ => if j = id then some (.submit seq) else none
  | .delivered j seq _ => if j = id then some (.answer seq) else none

def Obs.submittedSeq : Obs → Option UInt32
  | .submitted _ seq _ => some seq
  | _ => none

/-- What happened to the requests of session `id`. -/
def moves (id : Nat) (log : List Obs) : List Move := log.filterMap (Obs.move id)

theorem moves_append : moves id (o ++ o') = moves id o ++ moves id o' := List.filterMap_append

-- ---------------------------------------------------------------------------
-- The system
-- ---------------------------------------------------------------------------

/-- The driver, what the SCP has not answered yet, and which sessions wait. -/
structure World where
  driver : Driver := {}
  nextId : Nat := 0
  unanswered : List UInt32 := []
  waiting : Nat → Bool := fun _ => false

/-- The registry may insert a new session anywhere. A client fills its
dataspace whenever it likes. -/
inductive Event where
  | openSession (pos : Nat)
  | closeSession (id : Nat)
  | fill (id : Nat) (ds : Bytes)
  | request (id len : Nat)
  /-- the SCP leaves a response in `mob` and answers the request `seq` -/
  | answer (seq : UInt32) (mob : SharedBuffer)
  /-- an interrupt without a value in the mailbox -/
  | interrupt

namespace World

variable (w : World)

def sessions : List Session := w.driver.sessions

def port : Port := w.driver.port

/-- The world after the driver did `o`. -/
def after (r : Driver × List Obs) : World :=
  { w with
    driver := r.1
    unanswered := w.unanswered ++ r.2.filterMap Obs.submittedSeq
    waiting := fun id => waits (w.waiting id) (moves id r.2) }

def step : Event → World × List Obs
  | .openSession pos =>
    let sessions := w.sessions.take pos ++ { id := w.nextId } :: w.sessions.drop pos
    ({ w with driver := { w.driver with sessions }, nextId := w.nextId + 1 }, [])
  | .closeSession id =>
    ({ w with driver := { w.driver with sessions := w.sessions.filter (·.id ≠ id) } }, [])
  | .fill id ds =>
    let sessions := w.sessions.map fun s => if s.id = id then { s with ds } else s
    ({ w with driver := { w.driver with sessions } }, [])
  | .request id len =>
    match w.sessions.find? (·.id = id) with
    | none => (w, [])
    | some s =>
      match w.driver.request s len with
      | .error _ => (w, [])
      | .ok r => (w.after r, r.2)
  | .answer seq mob =>
    if seq ∈ w.unanswered then
      let w := { w with unanswered := w.unanswered.erase seq }
      let r := { w.driver with port := { w.port with mob } }.handleIrq (some seq)
      (w.after r, r.2)
    else (w, [])
  | .interrupt =>
    let r := w.driver.handleIrq none
    (w.after r, r.2)

end World

def world : System World Event Obs := ⟨World.step⟩

/-- A session issues a new non-empty request only after the one before was answered. -/
def Polite (w : World) : Event → Prop
  | .request id len => 0 < len ∧ w.waiting id = false
  | _ => True

instance (w : World) : DecidablePred (Polite w)
  | .request id len => inferInstanceAs (Decidable (0 < len ∧ w.waiting id = false))
  | .openSession _ => isTrue trivial
  | .closeSession _ => isTrue trivial
  | .fill _ _ => isTrue trivial
  | .answer _ _ => isTrue trivial
  | .interrupt => isTrue trivial

-- ---------------------------------------------------------------------------
-- The driver's invariant
-- ---------------------------------------------------------------------------

/-- The driver in front of its scheduler, with `q` unanswered: the session whose
request the SCP executes waits for the one answer outstanding. -/
structure Steady (d : Driver) (q : List UInt32) : Prop where
  nodup : (d.sessions.map (·.id)).Nodup
  proper : ∀ s ∈ d.sessions, s.Proper
  busy : d.port.state = .busy → ∃ n, q = [n]
  idle : d.port.state = .idle → q = []
  executing : ∀ s ∈ d.sessions, ∀ n, s.execId = some n → q = [n]
  one : ∀ s ∈ d.sessions, ∀ t ∈ d.sessions, s.execId.isSome → t.execId.isSome → s.id = t.id

/-- The driver between two events: with an idle SCP nothing is left to submit. -/
structure Sound (d : Driver) (q : List UInt32) : Prop extends Steady d q where
  scheduled : d.port.state = .idle → ∀ s ∈ d.sessions, s.requestLen = 0

/-- The sessions after `o` are sessions from before, each one moved on by its own
observations. -/
structure Advances (ss : List Session) (o : List Obs) (ss' : List Session) : Prop where
  ids : ss'.map (·.id) = ss.map (·.id)
  from_before : ∀ s' ∈ ss', ∃ s ∈ ss, s.id = s'.id ∧
    ∀ h, History h s.phase → History (h ++ moves s.id o) s'.phase
  others : ∀ j, (∀ s ∈ ss, s.id ≠ j) → moves j o = []

theorem Advances.refl (ss : List Session) : Advances ss [] ss :=
  ⟨rfl, fun s hs => ⟨s, hs, rfl, fun h hh => by simpa [moves] using hh⟩, fun _ _ => rfl⟩

theorem Advances.trans {ss ss' ss'' : List Session} (h : Advances ss o ss') (h' : Advances ss' o' ss'') :
    Advances ss (o ++ o') ss'' := by
  refine ⟨h'.ids.trans h.ids, ?_, ?_⟩
  · intro s'' hs''
    obtain ⟨s', hs', hid', hmove'⟩ := h'.from_before s'' hs''
    obtain ⟨s, hs, hid, hmove⟩ := h.from_before s' hs'
    refine ⟨s, hs, hid.trans hid', fun ms hms => ?_⟩
    rw [moves_append, ← List.append_assoc]
    have := hmove' _ (hmove ms hms)
    rwa [← hid] at this
  · intro j hj
    rw [moves_append, h.others j hj, h'.others j ?_, List.append_nil]
    intro s' hs'
    obtain ⟨s, hs, hid, -⟩ := h.from_before s' hs'
    exact hid ▸ hj s hs

section Operations

variable {d : Driver} {q : List UInt32}

theorem eq_of_id {ss : List Session} (h : (ss.map Session.id).Nodup) (hs : s ∈ ss) (ht : t ∈ ss)
    (hid : s.id = t.id) : s = t :=
  List.inj_on_of_nodup_map h hs ht hid

theorem mem_of_find? {ss : List Session} (h : ss.find? (·.id = j) = some s) : s ∈ ss ∧ s.id = j :=
  ⟨List.mem_of_find?_eq_some h, by simpa using List.find?_some h⟩

/-- Nothing is in execution while the SCP has nothing to answer. -/
theorem Steady.execId_eq_none (h : Steady d []) (hs : s ∈ d.sessions) : s.execId = none := by
  by_contra hne
  obtain ⟨n, hn⟩ := Option.ne_none_iff_exists'.mp hne
  cases h.executing s hs n hn

/-- The scheduler finds nothing to do, or submits the request of a session that
has one pending. -/
theorem Steady.schedule_cases (h : Steady d q) :
    (d.port.state ≠ .idle ∨ ∀ s ∈ d.sessions, s.requestLen = 0) ∧ d.schedule = (d, []) ∨
    ∃ pre s post n, d.sessions = pre ++ s :: post ∧ q = [] ∧ s.phase = .pending ∧
      d.schedule.1.sessions = pre ++ s.submitted n :: post ∧ d.schedule.1.port.state = .busy ∧
      d.schedule.2 = [.submitted s.id n (s.ds.take s.requestLen)] := by
  rcases scheduleSessions_cases d.port h.proper with ⟨hnone, he⟩ | ⟨pre, s, post, hss, hidle, hlen, he⟩
  · exact .inl ⟨hnone, by simp [Driver.schedule, he]⟩
  · refine .inr ⟨pre, s, post, d.port.lastSubmit + 1, hss, h.idle hidle, ?_, ?_, ?_, ?_⟩
    · exact Session.phase_pending (h.proper s (by simp [hss])) hlen
    · simp only [Driver.schedule, he]
    · simp only [Driver.schedule, he]
      rfl
    · simp only [Driver.schedule, he]

theorem Steady.schedule (h : Steady d q) :
    Sound d.schedule.1 (q ++ d.schedule.2.filterMap Obs.submittedSeq) := by
  rcases h.schedule_cases with ⟨hnone, he⟩ | ⟨pre, s, post, n, hss, rfl, -, hss', hbusy, ho⟩
  · rw [he]
    simp only [List.filterMap_nil, List.append_nil]
    exact { h with scheduled := fun hidle => hnone.resolve_left (not_not.mpr hidle) }
  · have hnone : ∀ t ∈ pre ++ post, t.execId = none := by
      intro t ht
      refine h.execId_eq_none ?_
      rw [hss]
      rcases List.mem_append.mp ht with ht | ht
      · exact List.mem_append_left _ ht
      · exact List.mem_append_right _ (List.mem_cons_of_mem _ ht)
    have hq : [] ++ d.schedule.2.filterMap Obs.submittedSeq = [n] := by simp [ho, Obs.submittedSeq]
    have hcases : ∀ t ∈ d.schedule.1.sessions, t = s.submitted n ∨ t ∈ pre ++ post := by
      intro t ht
      rw [hss'] at ht
      rcases List.mem_append.mp ht with ht | ht
      · exact .inr (by simp [ht])
      · rcases List.mem_cons.mp ht with ht | ht
        · exact .inl ht
        · exact .inr (by simp [ht])
    rw [hq]
    refine ⟨⟨?_, ?_, fun _ => ⟨n, rfl⟩, ?_, ?_, ?_⟩, ?_⟩
    · rw [hss']
      simpa [hss, Session.submitted] using h.nodup
    · intro t ht
      rcases hcases t ht with rfl | ht
      · exact Session.proper_submitted
      · refine h.proper t ?_
        rw [hss]
        rcases List.mem_append.mp ht with ht | ht <;> simp [ht]
    · intro hidle
      rw [hbusy] at hidle
      cases hidle
    · intro t ht m hm
      rcases hcases t ht with rfl | ht
      · exact congrArg (fun m => [m]) (Option.some.inj hm)
      · rw [hnone t ht] at hm
        cases hm
    · intro t ht u hu htexec huexec
      rcases hcases t ht with rfl | ht
      · rcases hcases u hu with rfl | hu
        · rfl
        · simp [hnone u hu] at huexec
      · simp [hnone t ht] at htexec
    · intro hidle
      rw [hbusy] at hidle
      cases hidle

theorem Steady.advances_schedule (h : Steady d q) :
    Advances d.sessions d.schedule.2 d.schedule.1.sessions := by
  rcases h.schedule_cases with ⟨-, he⟩ | ⟨pre, s, post, n, hss, -, hphase, hss', -, ho⟩
  · rw [he]
    exact .refl _
  · have hself : moves s.id d.schedule.2 = [.submit n] := by simp [ho, moves, Obs.move]
    have hother : ∀ j, j ≠ s.id → moves j d.schedule.2 = [] := by
      intro j hj
      simp [ho, moves, Obs.move, hj.symm]
    have hfresh : s.id ∉ (pre ++ post).map Session.id := by
      have hnodup := h.nodup
      rw [hss, List.map_append, List.map_cons, List.nodup_middle, List.nodup_cons] at hnodup
      simpa using hnodup.1
    refine ⟨?_, ?_, ?_⟩
    · rw [hss, hss']
      simp [Session.submitted]
    · intro t ht
      rw [hss'] at ht
      have hrest : t ∈ pre ++ post → ∃ s ∈ d.sessions, s.id = t.id ∧
          ∀ h, History h s.phase → History (h ++ moves s.id d.schedule.2) t.phase := by
        intro ht
        have hne : t.id ≠ s.id := fun he => hfresh (he ▸ List.mem_map_of_mem ht)
        refine ⟨t, ?_, rfl, fun ms hms => ?_⟩
        · rw [hss]
          rcases List.mem_append.mp ht with ht | ht <;> simp [ht]
        · rwa [hother _ hne, List.append_nil]
      rcases List.mem_append.mp ht with ht | ht
      · exact hrest (by simp [ht])
      · rcases List.mem_cons.mp ht with rfl | ht
        · refine ⟨s, by simp [hss], rfl, fun ms hms => ?_⟩
          rw [hself]
          exact (hphase ▸ hms).submit
        · exact hrest (by simp [ht])
    · intro j hj
      exact hother j fun hjs => hj s (by simp [hss]) hjs.symm

/-- The driver once the sessions got the response to `seq`. -/
def Driver.delivered (d : Driver) (seq : UInt32) : Driver × List Obs :=
  let port := { d.port with lastResponse := seq }
  let r := deliverSessions port seq d.sessions
  ({ port := { port with state := .idle }, sessions := r.1 }, r.2)

theorem handleIrq_some (d : Driver) (seq : UInt32) : d.handleIrq (some seq) =
    ((d.delivered seq).1.schedule.1, (d.delivered seq).2 ++ (d.delivered seq).1.schedule.2) := rfl

/-- A session after the response to `seq` came from one before. -/
theorem mem_delivered (h : t ∈ (d.delivered seq).1.sessions) : ∃ s ∈ d.sessions,
    s.execId = some seq ∧ t = s.deliverResponse { d.port with lastResponse := seq } ∨
      s.execId ≠ some seq ∧ t = s := by
  rw [Driver.delivered, deliverSessions_eq] at h
  obtain ⟨s, hs, rfl⟩ := List.mem_map.mp h
  refine ⟨s, hs, ?_⟩
  split
  · rename_i hmatch
    exact .inl ⟨by simpa [Session.matchesSeq] using hmatch, rfl⟩
  · rename_i hmatch
    exact .inr ⟨by simpa [Session.matchesSeq] using hmatch, rfl⟩

theorem map_id_delivered (d : Driver) (seq : UInt32) :
    (d.delivered seq).1.sessions.map (·.id) = d.sessions.map (·.id) := by
  rw [Driver.delivered, deliverSessions_eq]
  simp only [List.map_map]
  refine List.map_congr_left fun s _ => ?_
  simp only [Function.comp_apply]
  split <;> rfl

/-- The answer leaves nothing in execution. -/
theorem Steady.delivered (h : Steady d [seq]) : Steady (d.delivered seq).1 [] := by
  have hnone : ∀ t ∈ (d.delivered seq).1.sessions, t.execId = none := by
    intro t ht
    obtain ⟨s, hs, ⟨-, rfl⟩ | ⟨hne, rfl⟩⟩ := mem_delivered ht
    · exact Session.execId_deliverResponse
    · by_contra hsome
      obtain ⟨n, hn⟩ := Option.ne_none_iff_exists'.mp hsome
      have hseq := h.executing t hs n hn
      simp only [List.cons.injEq, and_true] at hseq
      exact hne (hseq ▸ hn)
  refine ⟨?_, fun t ht => ?_, nofun, fun _ => rfl, fun t ht n hn => ?_, fun t ht u _ htexec _ => ?_⟩
  · rw [map_id_delivered]
    exact h.nodup
  · obtain ⟨s, hs, ⟨hexec, rfl⟩ | ⟨-, rfl⟩⟩ := mem_delivered ht
    · have hzero : s.requestLen = 0 := (h.proper s hs).single (by simp [hexec])
      exact ⟨by simp [hzero], fun _ => hzero⟩
    · exact h.proper t hs
  · simp [hnone t ht] at hn
  · simp [hnone t ht] at htexec

theorem moves_map_delivered {ss : List Session} {p : Session → Bool} (j : Nat)
    (f : Session → Except ResponseError (List Byte)) :
    moves j ((ss.filter p).map fun s => .delivered s.id seq (f s)) =
      ((ss.filter (·.id = j)).filter p).map fun _ => .answer seq := by
  induction ss with
  | nil => rfl
  | cons s ss ih =>
    unfold moves at ih ⊢
    by_cases hp : p s <;> by_cases hj : s.id = j <;> simp [hp, hj, Obs.move, ih]

theorem filter_id {ss : List Session} (h : (ss.map Session.id).Nodup) (hs : s ∈ ss) :
    ss.filter (·.id = s.id) = [s] := by
  obtain ⟨pre, post, rfl⟩ := List.append_of_mem hs
  rw [List.map_append, List.map_cons, List.nodup_middle, List.nodup_cons, ← List.map_append] at h
  have hne : ∀ t ∈ pre ++ post, t.id ≠ s.id := fun t ht he => h.1 (he ▸ List.mem_map_of_mem ht)
  have hpre : pre.filter (·.id = s.id) = [] :=
    List.filter_eq_nil_iff.mpr fun t ht => by simp [hne t (by simp [ht])]
  have hpost : post.filter (·.id = s.id) = [] :=
    List.filter_eq_nil_iff.mpr fun t ht => by simp [hne t (by simp [ht])]
  simp [hpre, hpost]

/-- One session at most is in execution, and gets the response. -/
theorem Steady.advances_delivered (h : Steady d q) :
    Advances d.sessions (d.delivered seq).2 (d.delivered seq).1.sessions := by
  have hobs : ∀ s ∈ d.sessions, moves s.id (d.delivered seq).2 =
      if s.execId = some seq then [.answer seq] else [] := by
    intro s hs
    rw [Driver.delivered, deliverSessions_eq, moves_map_delivered, filter_id h.nodup hs]
    by_cases he : s.execId = some seq <;> simp [Session.matchesSeq, he]
  refine ⟨map_id_delivered d seq, ?_, ?_⟩
  · intro t ht
    obtain ⟨s, hs, ⟨hexec, rfl⟩ | ⟨hne, rfl⟩⟩ := mem_delivered ht
    · refine ⟨s, hs, rfl, fun ms hms => ?_⟩
      rw [hobs s hs, if_pos hexec, (h.proper s hs).phase_deliverResponse hexec]
      exact (Session.phase_executing hexec ▸ hms).answer
    · refine ⟨t, hs, rfl, fun ms hms => ?_⟩
      rw [hobs t hs, if_neg hne, List.append_nil]
      exact hms
  · intro j hj
    have hnone : d.sessions.filter (·.id = j) = [] :=
      List.filter_eq_nil_iff.mpr fun t ht => by simp [hj t ht]
    rw [Driver.delivered, deliverSessions_eq, moves_map_delivered, hnone]
    rfl

theorem map_id_put (d : Driver) (s : Session) :
    (d.put s).sessions.map (·.id) = d.sessions.map (·.id) := by
  simp only [Driver.put, List.map_map]
  refine List.map_congr_left fun t _ => ?_
  simp only [Function.comp_apply]
  split
  · rename_i he
    exact he.symm
  · rfl

theorem mem_put (h : t ∈ (d.put s).sessions) : t = s ∨ t ∈ d.sessions ∧ t.id ≠ s.id := by
  obtain ⟨u, hu, rfl⟩ := List.mem_map.mp h
  split
  · exact .inl rfl
  · rename_i hne
    exact .inr ⟨hu, hne⟩

theorem Steady.put (h : Steady d q) (hexec : s.execId = none) (hfits : s.requestLen ≤ MAX_REQUEST_LEN) :
    Steady (d.put s) q := by
  refine ⟨?_, fun t ht => ?_, h.busy, h.idle, fun t ht n hn => ?_, fun t ht u hu htexec huexec => ?_⟩
  · rw [map_id_put]
    exact h.nodup
  · rcases mem_put ht with rfl | ⟨ht, -⟩
    · exact ⟨hfits, fun he => by simp [hexec] at he⟩
    · exact h.proper t ht
  · rcases mem_put ht with rfl | ⟨ht, -⟩
    · simp [hexec] at hn
    · exact h.executing t ht n hn
  · rcases mem_put ht with rfl | ⟨ht, -⟩
    · simp [hexec] at htexec
    · rcases mem_put hu with rfl | ⟨hu, -⟩
      · simp [hexec] at huexec
      · exact h.one t ht u hu htexec huexec

/-- A session that has nothing outstanding takes up a request. -/
theorem advances_put (hs : s ∈ d.sessions) (hid : s'.id = s.id) (hidle : s.phase = .idle)
    (hpending : s'.phase = .pending) :
    Advances d.sessions [.accepted s'.id] (d.put s').sessions := by
  have hother : ∀ j, j ≠ s'.id → moves j [.accepted s'.id] = [] := by
    intro j hj
    simp [moves, Obs.move, hj.symm]
  refine ⟨map_id_put d s', fun t ht => ?_, fun j hj => hother j fun hjs => hj s hs (hid ▸ hjs.symm)⟩
  rcases mem_put ht with rfl | ⟨ht, hne⟩
  · refine ⟨s, hs, hid.symm, fun ms hms => ?_⟩
    have hself : moves s.id [.accepted t.id] = [.accept] := by simp [moves, Obs.move, hid]
    rw [hself, hpending]
    exact (hidle ▸ hms).accept
  · refine ⟨t, ht, rfl, fun ms hms => ?_⟩
    rwa [hother _ hne, List.append_nil]

end Operations

-- ---------------------------------------------------------------------------
-- Runs
-- ---------------------------------------------------------------------------

section Runs

variable {w : World}

/-- The log tells the phase of every session, and who waits. -/
structure Tracked (log : List Obs) (w : World) : Prop where
  sound : Sound w.driver w.unanswered
  fresh : ∀ s ∈ w.sessions, s.id < w.nextId
  future : ∀ j, w.nextId ≤ j → moves j log = []
  history : ∀ j, ∃ phase, History (moves j log) phase ∧ ∀ s ∈ w.sessions, s.id = j → s.phase = phase
  waiting : ∀ j, w.waiting j = waits false (moves j log)

theorem tracked_init : Tracked [] {} where
  sound := ⟨⟨List.nodup_nil, nofun, nofun, fun _ => rfl, nofun, nofun⟩, nofun⟩
  fresh := nofun
  future _ _ := rfl
  history _ := ⟨.idle, .nil, nofun⟩
  waiting _ := rfl

theorem Tracked.advance (h : Tracked log w) (hsound : Sound d q) (hadv : Advances w.sessions o d.sessions) :
    Tracked (log ++ o) { w with
      driver := d, unanswered := q, waiting := fun j => waits (w.waiting j) (moves j o) } := by
  refine ⟨hsound, fun s' hs' => ?_, fun j hj => ?_, fun j => ?_, fun j => ?_⟩
  · obtain ⟨s, hs, hid, -⟩ := hadv.from_before s' hs'
    exact hid ▸ h.fresh s hs
  · rw [moves_append, h.future j hj, hadv.others j fun s hs he => ?_, List.append_nil]
    exact absurd (h.fresh s hs) (by simp [he, hj])
  · obtain ⟨phase, hphase, hlive⟩ := h.history j
    by_cases hex : ∃ s' ∈ d.sessions, s'.id = j
    · obtain ⟨s', hs', rfl⟩ := hex
      obtain ⟨s, hs, hid, hmove⟩ := hadv.from_before s' hs'
      refine ⟨s'.phase, ?_, fun t ht hid => by rw [eq_of_id hsound.nodup ht hs' hid]⟩
      rw [moves_append, ← hid]
      exact hmove _ (hlive s hs hid ▸ hid ▸ hphase)
    · have hnone : ∀ s ∈ w.sessions, s.id ≠ j := by
        rintro s hs rfl
        have hmem : s.id ∈ d.sessions.map (·.id) := hadv.ids ▸ List.mem_map_of_mem hs
        obtain ⟨s', hs', hid⟩ := List.mem_map.mp hmem
        exact hex ⟨s', hs', hid⟩
      refine ⟨phase, ?_, fun s hs hid => absurd ⟨s, hs, hid⟩ hex⟩
      rwa [moves_append, hadv.others j hnone, List.append_nil]
  · rw [moves_append, waits_append, ← h.waiting]

/-- A session that stands where one stood before, but for its dataspace, or a new one. -/
def Stands (w : World) (t : Session) : Prop :=
  (∃ s ∈ w.sessions, t = { s with ds := t.ds }) ∨ w.nextId ≤ t.id ∧ t = { id := t.id }

/-- Sessions come and go, and their dataspaces change. -/
structure Restocks (w w' : World) : Prop where
  world : w' = { w with driver := { w.driver with sessions := w'.sessions }, nextId := w'.nextId }
  nodup : (w'.sessions.map (·.id)).Nodup
  stands : ∀ t ∈ w'.sessions, Stands w t
  next : w.nextId ≤ w'.nextId
  fresh : ∀ t ∈ w'.sessions, t.id < w'.nextId

theorem restocks_openSession (hnodup : (w.sessions.map (·.id)).Nodup)
    (hfresh : ∀ s ∈ w.sessions, s.id < w.nextId) (pos : Nat) :
    Restocks w (w.step (.openSession pos)).1 := by
  have hmem : ∀ t ∈ w.sessions.take pos ++ { id := w.nextId } :: w.sessions.drop pos,
      t = { id := w.nextId } ∨ t ∈ w.sessions := by
    intro t ht
    rcases List.mem_append.mp ht with ht | ht
    · exact .inr (List.mem_of_mem_take ht)
    · exact (List.mem_cons.mp ht).imp_right List.mem_of_mem_drop
  refine ⟨rfl, ?_, fun t ht => ?_, Nat.le_succ _, fun t ht => ?_⟩
  · change ((w.sessions.take pos ++ { id := w.nextId } :: w.sessions.drop pos).map (·.id)).Nodup
    rw [List.map_append, List.map_cons, List.nodup_middle, List.nodup_cons, ← List.map_append,
      List.take_append_drop]
    refine ⟨fun hin => ?_, hnodup⟩
    obtain ⟨s, hs, hid⟩ := List.mem_map.mp hin
    exact absurd (hfresh s hs) (by simp [hid])
  · rcases hmem t ht with rfl | ht
    · exact .inr ⟨le_rfl, rfl⟩
    · exact .inl ⟨t, ht, rfl⟩
  · rcases hmem t ht with rfl | ht
    · exact Nat.lt_succ_self _
    · exact (hfresh t ht).trans (Nat.lt_succ_self _)

theorem restocks_closeSession (hnodup : (w.sessions.map (·.id)).Nodup)
    (hfresh : ∀ s ∈ w.sessions, s.id < w.nextId) (j : Nat) :
    Restocks w (w.step (.closeSession j)).1 := by
  have hmem : ∀ t ∈ w.sessions.filter (·.id ≠ j), t ∈ w.sessions := fun t ht => List.mem_of_mem_filter ht
  refine ⟨rfl, ?_, fun t ht => .inl ⟨t, hmem t ht, rfl⟩, le_rfl, fun t ht => hfresh t (hmem t ht)⟩
  exact hnodup.sublist (List.filter_sublist.map _)

theorem map_id_fill (w : World) (j : Nat) (ds : Bytes) :
    (w.step (.fill j ds)).1.sessions.map (·.id) = w.sessions.map (·.id) := by
  change (w.sessions.map fun s => if s.id = j then { s with ds } else s).map (·.id) = _
  rw [List.map_map]
  refine List.map_congr_left fun s _ => ?_
  simp only [Function.comp_apply]
  split <;> rfl

theorem restocks_fill (hnodup : (w.sessions.map (·.id)).Nodup)
    (hfresh : ∀ s ∈ w.sessions, s.id < w.nextId) (j : Nat) (ds : Bytes) :
    Restocks w (w.step (.fill j ds)).1 := by
  have hmem : ∀ t ∈ (w.step (.fill j ds)).1.sessions, ∃ s ∈ w.sessions, t = { s with ds := t.ds } := by
    intro t ht
    obtain ⟨s, hs, rfl⟩ := List.mem_map.mp ht
    refine ⟨s, hs, ?_⟩
    split <;> rfl
  refine ⟨rfl, map_id_fill w j ds ▸ hnodup, fun t ht => .inl (hmem t ht), le_rfl, fun t ht => ?_⟩
  obtain ⟨s, hs, he⟩ := hmem t ht
  rw [he]
  exact hfresh s hs

theorem Sound.restock (h : Sound w.driver w.unanswered) (hr : Restocks w w') :
    Sound w'.driver w'.unanswered := by
  have hexec : ∀ t ∈ w'.sessions, ∀ m, t.execId = some m →
      ∃ s ∈ w.sessions, s.id = t.id ∧ s.execId = some m := by
    intro t ht m hm
    rcases hr.stands t ht with ⟨s, hs, he⟩ | ⟨-, he⟩
    · exact ⟨s, hs, by rw [he], by rwa [he] at hm⟩
    · rw [he] at hm
      cases hm
  have hlen : ∀ t ∈ w'.sessions, t.requestLen = 0 ∨ ∃ s ∈ w.sessions, s.requestLen = t.requestLen ∧
      s.execId = t.execId := by
    intro t ht
    rcases hr.stands t ht with ⟨s, hs, he⟩ | ⟨-, he⟩
    · exact .inr ⟨s, hs, by rw [he], by rw [he]⟩
    · exact .inl (by rw [he])
  have hdriver : w'.driver = { w.driver with sessions := w'.sessions } := by rw [hr.world]; rfl
  have hunanswered : w'.unanswered = w.unanswered := by rw [hr.world]
  rw [hdriver, hunanswered]
  refine ⟨⟨hr.nodup, fun t ht => ?_, h.busy, h.idle, fun t ht m hm => ?_, ?_⟩, ?_⟩
  · rcases hlen t ht with hzero | ⟨s, hs, hl, he⟩
    · exact ⟨by simp [hzero], fun _ => hzero⟩
    · have := h.proper s hs
      exact ⟨hl ▸ this.fits, fun hm => hl ▸ this.single (he ▸ hm)⟩
  · obtain ⟨s, hs, -, he⟩ := hexec t ht m hm
    exact h.executing s hs m he
  · intro t ht u hu htexec huexec
    obtain ⟨m, hm⟩ := Option.isSome_iff_exists.mp htexec
    obtain ⟨k, hk⟩ := Option.isSome_iff_exists.mp huexec
    obtain ⟨s, hs, hid, he⟩ := hexec t ht m hm
    obtain ⟨s', hs', hid', he'⟩ := hexec u hu k hk
    rw [← hid, ← hid']
    exact h.one s hs s' hs' (by simp [he]) (by simp [he'])
  · intro hidle t ht
    rcases hlen t ht with hzero | ⟨s, hs, hl, -⟩
    · exact hzero
    · exact hl ▸ h.scheduled hidle s hs

/-- Nobody but the driver submits or answers. -/
theorem Tracked.restock (h : Tracked log w) (hr : Restocks w w') : Tracked log w' := by
  have hwaiting : w'.waiting = w.waiting := by rw [hr.world]
  refine ⟨h.sound.restock hr, hr.fresh, fun j hj => h.future j (hr.next.trans hj), fun j => ?_,
    hwaiting ▸ h.waiting⟩
  obtain ⟨phase, hphase, hlive⟩ := h.history j
  by_cases hj : w.nextId ≤ j
  · refine ⟨.idle, ?_, fun t ht hid => ?_⟩
    · rw [h.future j hj]
      exact .nil
    · rcases hr.stands t ht with ⟨s, hs, he⟩ | ⟨-, he⟩
      · have hfresh := h.fresh s hs
        have hid' : t.id = s.id := by rw [he]
        omega
      · rw [he]
        rfl
  · refine ⟨phase, hphase, fun t ht hid => ?_⟩
    rcases hr.stands t ht with ⟨s, hs, he⟩ | ⟨hn, -⟩
    · have hid' : t.id = s.id := by rw [he]
      rw [← hlive s hs (hid'.symm.trans hid), he]
      rfl
    · omega

theorem Tracked.interrupt (h : Tracked log w) :
    Tracked (log ++ (w.step .interrupt).2) (w.step .interrupt).1 :=
  h.advance h.sound.toSteady.schedule h.sound.toSteady.advances_schedule

/-- An unanswered request is the only one. -/
theorem Sound.unanswered_eq (h : Sound d q) (hseq : seq ∈ q) : q = [seq] := by
  have hbusy : d.port.state = .busy := by
    cases hstate : d.port.state with
    | busy => rfl
    | idle =>
      rw [h.idle hstate] at hseq
      cases hseq
  obtain ⟨n, rfl⟩ := h.busy hbusy
  rw [List.mem_singleton.mp hseq]

theorem submittedSeq_delivered (d : Driver) (seq : UInt32) :
    (d.delivered seq).2.filterMap Obs.submittedSeq = [] := by
  rw [Driver.delivered, deliverSessions_eq]
  simp [Obs.submittedSeq]

/-- The driver and the response it finds in `mob`. -/
def World.answering (w : World) (mob : SharedBuffer) : Driver :=
  { w.driver with port := { w.port with mob } }

theorem Sound.step_answer (h : Sound w.driver w.unanswered) (hseq : seq ∈ w.unanswered) (mob : SharedBuffer) :
    w.step (.answer seq mob) = (({ w with unanswered := [] } : World).after
      ((w.answering mob).handleIrq (some seq)), ((w.answering mob).handleIrq (some seq)).2) := by
  simp [World.step, h.unanswered_eq hseq, World.answering, World.port]

theorem Sound.steady_answering (h : Sound w.driver w.unanswered) (hseq : seq ∈ w.unanswered)
    (mob : SharedBuffer) : Steady (w.answering mob) [seq] :=
  { h.unanswered_eq hseq ▸ h.toSteady with }

theorem submittedSeq_handleIrq (d : Driver) (seq : UInt32) :
    (d.handleIrq (some seq)).2.filterMap Obs.submittedSeq =
      (d.delivered seq).1.schedule.2.filterMap Obs.submittedSeq := by
  rw [handleIrq_some, List.filterMap_append, submittedSeq_delivered, List.nil_append]

theorem Tracked.answer (h : Tracked log w) (seq : UInt32) (mob : SharedBuffer) :
    Tracked (log ++ (w.step (.answer seq mob)).2) (w.step (.answer seq mob)).1 := by
  by_cases hseq : seq ∈ w.unanswered
  · have hsteady := h.sound.steady_answering hseq mob
    have hafter := hsteady.delivered
    have hsound : Sound ((w.answering mob).handleIrq (some seq)).1
        ([] ++ ((w.answering mob).handleIrq (some seq)).2.filterMap Obs.submittedSeq) := by
      rw [submittedSeq_handleIrq]
      exact hafter.schedule
    rw [h.sound.step_answer hseq]
    exact h.advance hsound (hsteady.advances_delivered.trans hafter.advances_schedule)
  · simpa [World.step, hseq] using h

/-- A session that does not wait has nothing outstanding. -/
theorem Tracked.phase_idle (h : Tracked log w) (hs : s ∈ w.sessions) (hwait : w.waiting s.id = false) :
    s.phase = .idle := by
  obtain ⟨phase, hphase, hlive⟩ := h.history s.id
  rw [hlive s hs rfl]
  by_contra hne
  have := hphase.waits_iff.mpr hne
  rw [← h.waiting, hwait] at this
  cases this

theorem Tracked.request (h : Tracked log w) (hpos : 0 < len) (hwait : w.waiting j = false) :
    Tracked (log ++ (w.step (.request j len)).2) (w.step (.request j len)).1 := by
  cases hfind : w.sessions.find? (·.id = j) with
  | none => simpa [World.step, hfind] using h
  | some s =>
    obtain ⟨hs, hid⟩ := mem_of_find? hfind
    have hidle : s.phase = .idle := h.phase_idle hs (hid ▸ hwait)
    have hexec : s.execId = none := by
      by_contra hne
      obtain ⟨n, hn⟩ := Option.ne_none_iff_exists'.mp hne
      rw [Session.phase_executing hn] at hidle
      cases hidle
    by_cases hlen : len > MAX_REQUEST_LEN
    · have hreq : w.driver.request s len = .error .tooLarge := by
        simp [Driver.request, Session.request, hlen, Except.map]
      simpa [World.step, hfind, hreq] using h
    · set s' : Session := { s with requestLen := len, responseResult := .error .unknown } with hs'
      have hpending : s'.phase = .pending := by
        simp [Session.phase, hs', hexec, hpos.ne']
      have hsteady : Steady (w.driver.put s') w.unanswered :=
        h.sound.toSteady.put hexec (not_lt.mp hlen)
      have hput : Advances w.sessions [.accepted s'.id] (w.driver.put s').sessions :=
        advances_put hs rfl hidle hpending
      have hadv : Advances w.sessions ([.accepted s'.id] ++ (w.driver.put s').schedule.2)
          (w.driver.put s').schedule.1.sessions :=
        hput.trans hsteady.advances_schedule
      have hreq : w.driver.request s len =
          .ok ((w.driver.put s').schedule.1, .accepted s'.id :: (w.driver.put s').schedule.2) := by
        simp [Driver.request, Session.request, hlen, Except.map, hs']
      have hstep : w.step (.request j len) =
          (w.after ((w.driver.put s').schedule.1, .accepted s'.id :: (w.driver.put s').schedule.2),
            .accepted s'.id :: (w.driver.put s').schedule.2) := by
        simp [World.step, hfind, hreq]
      have hsound : Sound (w.driver.put s').schedule.1 (w.unanswered ++
          (.accepted s'.id :: (w.driver.put s').schedule.2).filterMap Obs.submittedSeq) := by
        rw [List.filterMap_cons_none rfl]
        exact hsteady.schedule
      rw [hstep]
      exact h.advance hsound hadv

theorem Tracked.next (h : Tracked log w) (e : Event) (he : Polite w e) :
    Tracked (log ++ world.obs w e) (world.next w e) := by
  cases e with
  | openSession pos =>
    have := h.restock (restocks_openSession h.sound.nodup h.fresh pos)
    rwa [← List.append_nil log] at this
  | closeSession j =>
    have := h.restock (restocks_closeSession h.sound.nodup h.fresh j)
    rwa [← List.append_nil log] at this
  | fill j ds =>
    have := h.restock (restocks_fill h.sound.nodup h.fresh j ds)
    rwa [← List.append_nil log] at this
  | request j len => exact h.request he.1 he.2
  | answer seq mob => exact h.answer seq mob
  | interrupt => exact h.interrupt

theorem tracked_run (es : List Event) (hes : world.Along Polite {} es) :
    Tracked (world.log {} es) (world.run {} es) :=
  System.log_invariant (S := world) (I := Tracked) (fun _ _ e h he => h.next e he) tracked_init hes

-- ---------------------------------------------------------------------------
-- No request is lost
-- ---------------------------------------------------------------------------

/-- How many sessions have a request pending. -/
def pendingCount (ss : List Session) : Nat := ss.countP (·.requestLen ≠ 0)

theorem pendingCount_delivered (d : Driver) (seq : UInt32) :
    pendingCount (d.delivered seq).1.sessions = pendingCount d.sessions := by
  rw [Driver.delivered, deliverSessions_eq, pendingCount, pendingCount, List.countP_map]
  refine List.countP_congr fun s _ => ?_
  simp only [Function.comp_apply]
  split <;> rfl

/-- The scheduler takes up one of the requests pending, or has submitted nothing. -/
theorem Steady.pendingCount_schedule (h : Steady d q) :
    pendingCount d.schedule.1.sessions + 1 = pendingCount d.sessions ∨
      d.schedule.2.filterMap Obs.submittedSeq = [] := by
  rcases h.schedule_cases with ⟨hnone, he⟩ | ⟨pre, s, post, n, hss, -, hphase, hss', -, -⟩
  · exact .inr (by rw [he]; rfl)
  · have hlen : s.requestLen ≠ 0 := by
      intro hz
      unfold Session.phase at hphase
      cases he : s.execId <;> simp [he, hz] at hphase
    refine .inl ?_
    simp [pendingCount, hss, hss', hlen, Session.submitted]
    omega

/-- The next answer submits one of the requests pending, or nothing is left to answer. -/
theorem Tracked.pendingCount_answer (h : Tracked log w) (hseq : seq ∈ w.unanswered) (mob : SharedBuffer) :
    pendingCount (world.next w (.answer seq mob)).sessions + 1 = pendingCount w.sessions ∨
      (world.next w (.answer seq mob)).unanswered = [] := by
  have hsteady := h.sound.steady_answering hseq mob
  change pendingCount (w.step (.answer seq mob)).1.sessions + 1 = _ ∨
    (w.step (.answer seq mob)).1.unanswered = []
  rw [h.sound.step_answer hseq]
  refine hsteady.delivered.pendingCount_schedule.imp (fun hp => ?_) fun ho => ?_
  · rw [pendingCount_delivered] at hp
    exact hp
  · simpa [World.after, submittedSeq_handleIrq] using ho

theorem Tracked.ids_answer (h : Tracked log w) (hseq : seq ∈ w.unanswered) (mob : SharedBuffer) :
    (world.next w (.answer seq mob)).sessions.map (·.id) = w.sessions.map (·.id) := by
  have hsteady := h.sound.steady_answering hseq mob
  change (w.step (.answer seq mob)).1.sessions.map (·.id) = _
  rw [h.sound.step_answer hseq]
  exact (hsteady.advances_delivered.trans hsteady.delivered.advances_schedule).ids

/-- With nothing to answer no session waits. -/
theorem Tracked.all_idle (h : Tracked log w) (hq : w.unanswered = []) :
    ∀ s ∈ w.sessions, s.phase = .idle := by
  intro s hs
  have hidle : w.driver.port.state = .idle := by
    cases hstate : w.driver.port.state with
    | idle => rfl
    | busy =>
      obtain ⟨n, hn⟩ := h.sound.busy hstate
      rw [hq] at hn
      cases hn
  have hexec : s.execId = none := by
    have hsteady := h.sound.toSteady
    rw [hq] at hsteady
    exact hsteady.execId_eq_none hs
  simp [Session.phase, hexec, h.sound.scheduled hidle s hs]

/-- Once clients rest and the SCP answers what it was asked, every request got served. -/
theorem Tracked.served (h : Tracked log w) (mob : SharedBuffer) :
    ∃ es, (∀ e ∈ es, ∃ seq, e = .answer seq mob) ∧
      (world.run w es).sessions.map (·.id) = w.sessions.map (·.id) ∧
      ∀ s ∈ (world.run w es).sessions, s.phase = .idle := by
  induction hk : pendingCount w.sessions using Nat.strong_induction_on generalizing w log with
  | _ k ih =>
    rcases hq : w.unanswered with _ | ⟨seq, rest⟩
    · exact ⟨[], nofun, rfl, h.all_idle hq⟩
    · have hseq : seq ∈ w.unanswered := by simp [hq]
      have hnext := h.next (.answer seq mob) trivial
      have hids := h.ids_answer hseq mob
      rcases h.pendingCount_answer hseq mob with hcount | hnone
      · obtain ⟨es, hes, hids', hidle⟩ := ih _ (by omega) hnext rfl
        refine ⟨.answer seq mob :: es, fun e he => ?_, hids'.trans hids, hidle⟩
        rcases List.mem_cons.mp he with rfl | he
        · exact ⟨seq, rfl⟩
        · exact hes e he
      · refine ⟨[.answer seq mob], fun e he => ?_, hids, hnext.all_idle hnone⟩
        exact ⟨seq, List.mem_singleton.mp he⟩

/-- What a session gets of the response the SCP leaves in `mob`. -/
def SharedBuffer.response (mob : SharedBuffer) : Except ResponseError (List Byte) :=
  if mob.count.toNat < 1000 then .ok mob.scpText else .error .tooLarge

/-- What an answer delivers is the response to the number that was answered. -/
theorem delivered_answer (h : .delivered j n response ∈ world.obs w (.answer seq mob)) :
    n = seq ∧ response = mob.response := by
  have hsched : ∀ (d : Driver), .delivered j n response ∉ d.schedule.2 := by
    intro d hd
    obtain ⟨_, _, _, he⟩ := scheduleSessions_obs hd
    cases he
  have h : .delivered j n response ∈ (w.step (.answer seq mob)).2 := h
  unfold World.step at h
  dsimp only at h
  split at h
  · rcases List.mem_append.mp h with h | h
    · rw [deliverSessions_eq] at h
      obtain ⟨s, -, he⟩ := List.mem_map.mp h
      obtain ⟨-, rfl, rfl⟩ := Obs.delivered.inj he
      exact ⟨rfl, Session.response_deliverResponse⟩
    · exact absurd h (hsched _)
  · cases h

/-- Whatever the interleaving, the SCP has at most one request, every session
lives through its requests one at a time, and none is lost. -/
theorem requests_served (es : List Event) (hes : world.Along Polite {} es) :
    let w := world.run {} es
    let log := world.log {} es
    (w.port.state = .busy ↔ ∃ n, w.unanswered = [n]) ∧
    (w.port.state = .idle ↔ w.unanswered = []) ∧
    (∀ j, ∃ phase, History (moves j log) phase ∧ ∀ s ∈ w.sessions, s.id = j → s.phase = phase) ∧
    (∀ s ∈ w.sessions, ∀ n, s.phase = .executing n → w.unanswered = [n]) ∧
    (∀ s ∈ w.sessions, ∀ t ∈ w.sessions, ∀ n m,
      s.phase = .executing n → t.phase = .executing m → s.id = t.id) ∧
    (∀ s ∈ w.sessions, s.phase = .pending → w.port.state = .busy) ∧
    (∀ j n response seq mob, .delivered j n response ∈ world.obs w (.answer seq mob) →
      n = seq ∧ response = mob.response) ∧
    ∀ mob, ∃ es', (∀ e ∈ es', ∃ seq, e = .answer seq mob) ∧
      (world.run w es').sessions.map (·.id) = w.sessions.map (·.id) ∧
      ∀ s ∈ (world.run w es').sessions, s.phase = .idle := by
  intro w log
  have h : Tracked log w := tracked_run es hes
  have hbusy : w.port.state = .busy ↔ ∃ n, w.unanswered = [n] := by
    refine ⟨h.sound.busy, fun ⟨n, hn⟩ => ?_⟩
    cases hstate : w.port.state with
    | busy => rfl
    | idle => simp [h.sound.idle hstate] at hn
  have hidle : w.port.state = .idle ↔ w.unanswered = [] := by
    refine ⟨h.sound.idle, fun hq => ?_⟩
    cases hstate : w.port.state with
    | idle => rfl
    | busy =>
      obtain ⟨n, hn⟩ := hbusy.mp hstate
      simp [hq] at hn
  have hexec : ∀ s ∈ w.sessions, ∀ n, s.phase = .executing n → s.execId = some n := by
    intro s _ n hn
    unfold Session.phase at hn
    split at hn
    · rename_i m he
      rw [he, Phase.executing.inj hn]
    · split at hn <;> cases hn
  refine ⟨hbusy, hidle, h.history, fun s hs n hn => ?_, fun s hs t ht n m hn hm => ?_,
    fun s hs hp => ?_, fun j n response seq mob => delivered_answer, h.served⟩
  · exact h.sound.executing s hs n (hexec s hs n hn)
  · exact h.sound.one s hs t ht (by simp [hexec s hs n hn]) (by simp [hexec t ht m hm])
  · by_contra hne
    have hq : w.unanswered = [] := by
      refine hidle.mp ?_
      cases hstate : w.port.state with
      | idle => rfl
      | busy => exact absurd hstate hne
    rw [h.all_idle hq s hs] at hp
    cases hp

/-- Session 0 closes while the SCP executes its request, session 1 waits, session 2 is new. -/
def closedMeanwhile : List Event :=
  [.openSession 0, .openSession 1, .request 0 3, .request 1 2, .closeSession 0, .openSession 0,
    .answer 1 {}, .request 2 5, .interrupt]

theorem requests_served_closedMeanwhile :
    (world.run {} closedMeanwhile).port.state = .busy ∧
      ∃ n, (world.run {} closedMeanwhile).unanswered = [n] := by
  have hserved := requests_served closedMeanwhile (by decide)
  have hbusy : (world.run {} closedMeanwhile).port.state = .busy := by decide
  exact ⟨hbusy, hserved.1.mp hbusy⟩

end Runs

end Allwinner.Scp
