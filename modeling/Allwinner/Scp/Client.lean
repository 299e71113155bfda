import Allwinner.Scp.Scheduling

/-!
# Executing commands

The client's side of a session: a command is marshalled into the dataspace,
requested, and waited for. The clients of all sessions run along with the driver
and the SCP.
-/

namespace Allwinner.Scp

open Library (System)

-- ---------------------------------------------------------------------------
-- Commands
-- ---------------------------------------------------------------------------

/-- A null-terminated string by the bytes in front of its end. -/
structure Cstring where
  chars : List Byte
  terminated : 0 ∉ chars

def Cstring.strlen (c : Cstring) : Nat := c.chars.length

/-- `copy_cstring`: at most `size - 1` characters and a null byte. -/
def copyCstring (dst : Bytes) (src : Cstring) (size : Nat) : Bytes :=
  if size = 0 then dst else fun i => (src.chars.take (size - 1) ++ [0]).getD i (dst i)

/-- The functor that `Local_connection::execute` and `Power::Scp::execute` pass as
`REQUEST_FN`. -/
def marshal (command : Cstring) (buf : Bytes) (bufLen : Nat) : Bytes × Nat :=
  -- the error is logged
  if command.strlen > bufLen then (buf, 0)
  else (copyCstring buf command bufLen, command.strlen)

/-- The first half of `_execute`. -/
def Session.execute (s : Session) (command : Cstring) : Except RequestError Session :=
  let (ds, len) := marshal command s.ds MAX_REQUEST_LEN
  { s with ds }.request len

/-- What a command of at most the maximum length leaves in the dataspace. -/
theorem copyCstring_apply (dst : Bytes) (src : Cstring) (hi : i < src.strlen) (hsize : src.strlen ≤ size) :
    copyCstring dst src size i = if i < size - 1 then src.chars.getD i 0 else 0 := by
  have hlen : (src.chars.take (size - 1)).length = min (size - 1) src.strlen := List.length_take
  have hpos : size ≠ 0 := by omega
  rw [copyCstring, if_neg hpos]
  by_cases hlt : i < size - 1
  · rw [if_pos hlt, List.getD_append _ _ _ _ (by omega), List.getD_eq_getElem?_getD,
      List.getElem?_take_of_lt hlt, List.getD_eq_getElem?_getD]
    have hget : src.chars[i]? = some src.chars[i] := List.getElem?_eq_getElem hi
    simp [hget]
  · have hend : i = (src.chars.take (size - 1)).length := by omega
    rw [if_neg hlt, List.getD_eq_getElem?_getD, hend, List.getElem?_concat_length]
    rfl

/-- The session with the marshalled command. -/
def Session.loaded (s : Session) (command : Cstring) : Session :=
  { s with
    ds := (marshal command s.ds MAX_REQUEST_LEN).1
    requestLen := (marshal command s.ds MAX_REQUEST_LEN).2
    responseResult := .error .unknown }

/-- A command that does not fit becomes a request of no bytes. -/
theorem requestLen_loaded (s : Session) (command : Cstring) :
    (s.loaded command).requestLen = if command.strlen ≤ MAX_REQUEST_LEN then command.strlen else 0 := by
  by_cases hlen : command.strlen ≤ MAX_REQUEST_LEN
  · simp [Session.loaded, marshal, Nat.not_lt.mpr hlen, hlen]
  · simp [Session.loaded, marshal, Nat.not_le.mp hlen, hlen]

theorem fits_loaded (s : Session) (command : Cstring) : (s.loaded command).requestLen ≤ MAX_REQUEST_LEN := by
  rw [requestLen_loaded]
  split
  · assumption
  · exact Nat.zero_le _

/-- The server accepts whatever was marshalled. -/
theorem execute_eq (s : Session) (command : Cstring) : s.execute command = .ok (s.loaded command) :=
  if_neg (Nat.not_lt.mpr (fits_loaded s command))

theorem idle_loaded {s : Session} (hexec : s.execId = none) (command : Cstring) :
    (s.loaded command).phase = .idle ↔ ¬ (1 ≤ command.strlen ∧ command.strlen ≤ MAX_REQUEST_LEN) := by
  have hphase : (s.loaded command).phase = .idle ↔ (s.loaded command).requestLen = 0 := by
    have hnone : (s.loaded command).execId = none := hexec
    unfold Session.phase
    rw [hnone]
    by_cases hz : (s.loaded command).requestLen = 0 <;> simp [hz]
  rw [hphase, requestLen_loaded]
  split <;> omega

-- ---------------------------------------------------------------------------
-- Texts between client and SCP
-- ---------------------------------------------------------------------------

/-- The SCP finds the command in `mib`, byte for byte. -/
def Transferred (command : Cstring) (mib : SharedBuffer) : Prop :=
  mib.count.toNat = command.strlen ∧ ∀ i (hi : i < command.strlen), mib.scpByte i = command.chars[i]

/-- The client finds the response in its dataspace, byte for byte. -/
def Retrieved (mob : SharedBuffer) (s : Session) : Prop :=
  s.responseResult = .ok mob.count.toNat ∧ ∀ i < mob.count.toNat, s.ds i = mob.scpByte i

theorem retrieved_deliverResponse (s : Session) (p : Port) (hlen : p.mob.count.toNat < 1000) :
    Retrieved p.mob (s.deliverResponse p) := by
  have hmax : p.mob.count.toNat ≤ MAX_RESPONSE_LEN := hlen.le
  unfold Retrieved Session.deliverResponse
  rw [retrieveFromScp_ok p s.ds hlen hmax]
  refine ⟨rfl, fun i hi => ?_⟩
  simp only [copyFromScp_apply, if_pos hi, scpByte_eq]

/-- The last character of a command of the maximum length gives way to the null byte. -/
theorem transferred_iff (s : Session) (p : Port) (hmax : command.strlen ≤ MAX_REQUEST_LEN) :
    Transferred command (p.submitted (copyCstring s.ds command MAX_REQUEST_LEN) command.strlen).mib ↔
      command.strlen < MAX_REQUEST_LEN := by
  have hbyte : ∀ i (hi : i < command.strlen),
      (p.submitted (copyCstring s.ds command MAX_REQUEST_LEN) command.strlen).mib.scpByte i =
        if i < MAX_REQUEST_LEN - 1 then command.chars[i] else 0 := by
    intro i hi
    rw [scpByte_submitted p hi, copyCstring_apply s.ds command hi hmax, List.getD_eq_getElem _ _ hi]
  constructor
  · intro h
    by_contra hlen
    have hend : MAX_REQUEST_LEN - 1 < command.strlen := by
      simp only [MAX_REQUEST_LEN] at hlen ⊢
      omega
    have hlast := (hbyte _ hend).symm.trans (h.2 _ hend)
    rw [if_neg (lt_irrefl _)] at hlast
    exact command.terminated (hlast ▸ List.getElem_mem hend)
  · intro hlen
    refine ⟨count_submitted p hmax, fun i hi => ?_⟩
    rw [hbyte i hi, if_pos (by omega)]

theorem mib_loaded (s : Session) {p : Port} (hidle : p.state = .idle) (hpos : 1 ≤ command.strlen)
    (hmax : command.strlen ≤ MAX_REQUEST_LEN) : ((s.loaded command).withPendingRequest p).1.mib =
      (p.submitted (copyCstring s.ds command MAX_REQUEST_LEN) command.strlen).mib := by
  have hcap : command.strlen ≤ SharedBuffer.CAPACITY := hmax.trans (by decide)
  have hzero : command.strlen ≠ 0 := by omega
  simp [Session.withPendingRequest, Session.loaded, marshal, Nat.not_lt.mpr hmax, hzero,
    submitToScp_idle p hidle hcap]

/-- Commands and responses arrive byte for byte, but for a command of exactly the
maximum length. -/
theorem transfer_exact_iff (command : Cstring) (hpos : 1 ≤ command.strlen)
    (hmax : command.strlen ≤ MAX_REQUEST_LEN) (s : Session) (p : Port) (hidle : p.state = .idle) :
    (∃ s', s.execute command = .ok s' ∧ Transferred command (s'.withPendingRequest p).1.mib) ∧
      (∀ (t : Session) (q : Port), q.mob.count.toNat < 1000 → Retrieved q.mob (t.deliverResponse q)) ↔
    command.strlen < MAX_REQUEST_LEN := by
  rw [← transferred_iff s p hmax, execute_eq, ← mib_loaded s hidle hpos hmax]
  simp only [Except.ok.injEq, exists_eq_left']
  exact and_iff_left fun t q => retrieved_deliverResponse t q

theorem transfer_exact_ok : ∃ s', Session.execute { id := 0 } ⟨[0x6f, 0x6b], by decide⟩ = .ok s' ∧
    Transferred ⟨[0x6f, 0x6b], by decide⟩ (s'.withPendingRequest {}).1.mib :=
  ((transfer_exact_iff ⟨[0x6f, 0x6b], by decide⟩ (by decide) (by decide) { id := 0 } {} rfl).mpr
    (by decide)).1

/-- A thousand commas. -/
def longest : Cstring :=
  ⟨List.replicate 1000 0x2c, fun h => absurd (List.eq_of_mem_replicate h) (by decide)⟩

theorem longest_cut : ∃ s', Session.execute { id := 0 } longest = .ok s' ∧
    ¬ Transferred longest (s'.withPendingRequest {}).1.mib := by
  have hlen : longest.strlen = 1000 := List.length_replicate
  refine ⟨_, execute_eq _ longest, ?_⟩
  rw [mib_loaded _ rfl (by omega) hlen.le, transferred_iff _ _ hlen.le, hlen]
  decide

-- ---------------------------------------------------------------------------
-- Clients that wait
-- ---------------------------------------------------------------------------

/-- Where the client of a session is in `_execute`. -/
inductive Client where
  | ready
  /-- in the loop around `wait_and_dispatch_one_io_signal` -/
  | waiting (origCount : UInt32)
  deriving DecidableEq

inductive ExecuteError where
  | requestTooLarge | responseTooLarge
  deriving DecidableEq

/-- What the client's own functors are called with. -/
inductive Callback where
  | response (id : Nat) (text : List Byte)
  | error (id : Nat) (e : ExecuteError)

/-- The driver and the SCP along with the client of each session. -/
structure Clients where
  world : World := {}
  client : Nat → Client := fun _ => .ready

inductive Act where
  | openSession (pos : Nat)
  | closeSession (id : Nat)
  | execute (id : Nat) (command : Cstring)
  /-- the client of the session dispatches a signal -/
  | signal (id : Nat)
  | answer (seq : UInt32) (mob : SharedBuffer)
  | interrupt

namespace Clients

variable (c : Clients)

def become (id : Nat) (k : Client) : Clients := { c with client := Function.update c.client id k }

/-- `_execute` up to the loop. -/
def execute (s : Session) (command : Cstring) : Clients × List Callback :=
  let (ds, len) := marshal command s.ds MAX_REQUEST_LEN
  let world := (c.world.step (.fill s.id ds)).1
  match world.driver.request { s with ds } len with
  | .error .tooLarge => ({ c with world }, [.error s.id .requestTooLarge])
  | .ok r => ({ c with world := world.after r }.become s.id (.waiting s.responseCount), [])

/-- One round of the loop: nothing came for this session, or the response is consumed. -/
def signal (s : Session) (origCount : UInt32) : Clients × List Callback :=
  if s.responseCount = origCount then (c, [])
  else
    match s.response with
    | .ok text => (c.become s.id .ready, [.response s.id text])
    | .error .unknown => (c.become s.id (.waiting s.responseCount), [])
    | .error .tooLarge => (c.become s.id .ready, [.error s.id .responseTooLarge])

def step : Act → Clients × List Callback
  | .openSession pos =>
    ({ c with world := (c.world.step (.openSession pos)).1 }.become c.world.nextId .ready, [])
  | .closeSession id => ({ c with world := (c.world.step (.closeSession id)).1 }, [])
  | .execute id command =>
    match c.world.sessions.find? (·.id = id), c.client id with
    | some s, .ready => c.execute s command
    | _, _ => (c, [])
  | .signal id =>
    match c.world.sessions.find? (·.id = id), c.client id with
    | some s, .waiting origCount => c.signal s origCount
    | _, _ => (c, [])
  | .answer seq mob => ({ c with world := (c.world.step (.answer seq mob)).1 }, [])
  | .interrupt => ({ c with world := (c.world.step .interrupt).1 }, [])

end Clients

def clients : System Clients Act Callback := ⟨Clients.step⟩

/-- The client does not wait for a response that nobody asked for. -/
def Client.NoIdleWait (k : Client) (s : Session) : Prop := k = .waiting s.responseCount → s.Outstanding

/-- A session whose client blocks has a request pending or executing. -/
def NoIdleWait (c : Clients) : Prop := ∀ s ∈ c.world.sessions, (c.client s.id).NoIdleWait s

/-- The command a client executes is not empty, and fits. -/
def Fits (c : Clients) : Act → Prop
  | .execute id command => (∃ s ∈ c.world.sessions, s.id = id) → c.client id = .ready →
      1 ≤ command.strlen ∧ command.strlen ≤ MAX_REQUEST_LEN
  | _ => True

-- ---------------------------------------------------------------------------
-- What the driver does to a session in the sight of its client
-- ---------------------------------------------------------------------------

/-- The client sees no difference. -/
structure Kept (s t : Session) : Prop where
  id : t.id = s.id
  count : t.responseCount = s.responseCount
  result : t.responseResult = s.responseResult
  idle : t.phase = .idle ↔ s.phase = .idle

/-- The session got the response it waited for. -/
structure Answered (s t : Session) : Prop where
  id : t.id = s.id
  waited : s.phase ≠ .idle
  count : t.responseCount = s.responseCount + 1
  result : t.responseResult ≠ .error .unknown
  idle : t.phase = .idle

/-- The sessions `ss'` are sessions of `ss`, kept or answered. -/
def Follow (ss ss' : List Session) : Prop := ∀ t ∈ ss', ∃ s ∈ ss, Kept s t ∨ Answered s t

theorem Kept.refl (s : Session) : Kept s s := ⟨rfl, rfl, rfl, Iff.rfl⟩

theorem kept_fill (s : Session) (ds : Bytes) : Kept s { s with ds } := ⟨rfl, rfl, rfl, Iff.rfl⟩

theorem Kept.trans {s t u : Session} (h : Kept s t) (h' : Kept t u) : Kept s u :=
  ⟨h'.id.trans h.id, h'.count.trans h.count, h'.result.trans h.result, h'.idle.trans h.idle⟩

theorem Answered.kept {s t u : Session} (h : Answered s t) (h' : Kept t u) : Answered s u :=
  ⟨h'.id.trans h.id, h.waited, h'.count.trans h.count, h'.result ▸ h.result, h'.idle.mpr h.idle⟩

variable {d : Driver} {q : List UInt32} {c : Clients}

theorem Steady.kept_schedule (h : Steady d q) :
    ∀ t ∈ d.schedule.1.sessions, ∃ s ∈ d.sessions, Kept s t := by
  intro t ht
  rcases h.schedule_cases with ⟨-, he⟩ | ⟨pre, s, post, n, hss, -, hphase, hss', -, -⟩
  · rw [he] at ht
    exact ⟨t, ht, .refl t⟩
  · rw [hss', List.mem_append, List.mem_cons] at ht
    rw [hss]
    rcases ht with ht | rfl | ht
    · exact ⟨t, by simp [ht], .refl t⟩
    · refine ⟨s, by simp, rfl, rfl, rfl, ?_⟩
      simp [Session.phase_submitted, hphase]
    · exact ⟨t, by simp [ht], .refl t⟩

theorem Steady.follow_delivered (h : Steady d [seq]) : Follow d.sessions (d.delivered seq).1.sessions := by
  intro t ht
  obtain ⟨s, hs, ⟨hexec, rfl⟩ | ⟨-, rfl⟩⟩ := mem_delivered ht
  · refine ⟨s, hs, .inr ⟨rfl, ?_, rfl, ?_, (h.proper s hs).phase_deliverResponse hexec⟩⟩
    · simp [Session.phase_executing hexec]
    · unfold Session.deliverResponse
      dsimp only
      split <;> simp
  · exact ⟨t, hs, .inl (.refl t)⟩

theorem Follow.kept {ss ss' ss'' : List Session} (h : Follow ss ss')
    (h' : ∀ t ∈ ss'', ∃ s ∈ ss', Kept s t) : Follow ss ss'' := by
  intro u hu
  obtain ⟨t, ht, hkept⟩ := h' u hu
  obtain ⟨s, hs, hst⟩ := h t ht
  exact ⟨s, hs, hst.imp (·.trans hkept) (·.kept hkept)⟩

-- ---------------------------------------------------------------------------
-- Clients agree with their sessions
-- ---------------------------------------------------------------------------

/-- A ready client has nothing outstanding. One that waits has been answered, or the
count stands where the client found it. -/
def Client.Agrees (k : Client) (s : Session) : Prop :=
  match k with
  | .ready => s.phase = .idle
  | .waiting origCount =>
    s.responseCount = origCount ∨ s.phase = .idle ∧ s.responseResult ≠ .error .unknown

theorem Client.Agrees.kept {k : Client} (h : k.Agrees s) (hst : Kept s t) : k.Agrees t := by
  cases k with
  | ready => exact hst.idle.mpr h
  | waiting n => exact h.imp hst.count.trans fun ⟨hidle, hres⟩ => ⟨hst.idle.mpr hidle, hst.result ▸ hres⟩

theorem Client.Agrees.answered {k : Client} (h : k.Agrees s) (hst : Answered s t) : k.Agrees t := by
  cases k with
  | ready => exact absurd h hst.waited
  | waiting n => exact .inr ⟨hst.idle, hst.result⟩

theorem Client.noIdleWait_kept {k : Client} (hst : Kept s t) : k.NoIdleWait t ↔ k.NoIdleWait s := by
  rw [Client.NoIdleWait, Client.NoIdleWait, hst.count, Session.Outstanding, Session.Outstanding]
  exact imp_congr_right fun _ => not_congr hst.idle

/-- The count has moved on. -/
theorem Client.Agrees.noIdleWait_answered {k : Client} (h : k.Agrees s) (hst : Answered s t) :
    k.NoIdleWait t := by
  intro hk
  subst hk
  rcases h with hcount | ⟨hidle, -⟩
  · rw [hst.count] at hcount
    simp at hcount
  · exact absurd hidle hst.waited

structure Settled (c : Clients) : Prop where
  sound : Sound c.world.driver c.world.unanswered
  fresh : ∀ s ∈ c.world.sessions, s.id < c.world.nextId
  agrees : ∀ s ∈ c.world.sessions, (c.client s.id).Agrees s

/-- The driver moves on. -/
theorem Settled.follow (h : Settled c) (hsound : Sound w.driver w.unanswered)
    (hnext : w.nextId = c.world.nextId) (hfollow : Follow c.world.sessions w.sessions) :
    Settled { c with world := w } ∧ (NoIdleWait c → NoIdleWait { c with world := w }) := by
  have hid : ∀ s t : Session, Kept s t ∨ Answered s t → t.id = s.id :=
    fun s t hst => hst.elim (·.id) (·.id)
  refine ⟨⟨hsound, fun t ht => ?_, fun t ht => ?_⟩, fun hno t ht => ?_⟩
  all_goals
    obtain ⟨s, hs, hst⟩ := hfollow t ht
    simp only [hid s t hst]
  · exact hnext ▸ h.fresh s hs
  · exact hst.elim (h.agrees s hs).kept (h.agrees s hs).answered
  · rcases hst with hst | hst
    · exact (Client.noIdleWait_kept hst).mpr (hno s hs)
    · exact (h.agrees s hs).noIdleWait_answered hst

/-- Sessions come and go. -/
theorem Settled.restock (h : Settled c) (hr : Restocks c.world w)
    (hold : ∀ j < c.world.nextId, client j = c.client j)
    (hnew : ∀ j, c.world.nextId ≤ j → j < w.nextId → client j = .ready) :
    Settled ⟨w, client⟩ ∧ (NoIdleWait c → NoIdleWait ⟨w, client⟩) := by
  refine ⟨⟨h.sound.restock hr, hr.fresh, fun t ht => ?_⟩, fun hno t ht => ?_⟩
  all_goals
    rcases hr.stands t ht with ⟨s, hs, he⟩ | ⟨hn, he⟩
  · rw [he]
    simp only [hold s.id (h.fresh s hs)]
    exact (h.agrees s hs).kept (kept_fill s t.ds)
  · simp only [hnew t.id hn (hr.fresh t ht)]
    rw [he]
    rfl
  · rw [he]
    simp only [hold s.id (h.fresh s hs)]
    exact (Client.noIdleWait_kept (kept_fill s t.ds)).mpr (hno s hs)
  · simp only [hnew t.id hn (hr.fresh t ht)]
    nofun

theorem Settled.loaded_agrees (s : Session) (command : Cstring) :
    (Client.waiting s.responseCount).Agrees (s.loaded command) := .inl rfl

/-- What `_execute` does up to the loop: the session takes up the command, and the
client waits. -/
theorem Settled.execute (h : Settled c) (hs : s ∈ c.world.sessions) (hready : c.client s.id = .ready)
    (command : Cstring) : ∃ w, c.execute s command =
        ({ c with world := w }.become s.id (.waiting s.responseCount), []) ∧
      Sound w.driver w.unanswered ∧ w.nextId = c.world.nextId ∧
      w.sessions.map (·.id) = c.world.sessions.map (·.id) ∧
      ∀ t ∈ w.sessions, Kept (s.loaded command) t ∨
        ∃ u ∈ c.world.sessions, u.id ≠ s.id ∧ Kept u t := by
  have hidle : s.phase = .idle := by
    have hagrees := h.agrees s hs
    rwa [hready] at hagrees
  have hexec : s.execId = none := by
    by_contra hne
    obtain ⟨n, hn⟩ := Option.ne_none_iff_exists'.mp hne
    rw [Session.phase_executing hn] at hidle
    cases hidle
  have hfill := restocks_fill h.sound.nodup h.fresh s.id (s.loaded command).ds
  set w := (c.world.step (.fill s.id (s.loaded command).ds)).1 with hw
  have hsteady : Steady (w.driver.put (s.loaded command)) w.unanswered :=
    (h.sound.restock hfill).toSteady.put hexec (fits_loaded s command)
  have hrequest : w.driver.request { s with ds := (s.loaded command).ds } (s.loaded command).requestLen =
      .ok ((w.driver.put (s.loaded command)).schedule.1,
        .accepted s.id :: (w.driver.put (s.loaded command)).schedule.2) := by
    have hload : Session.request { s with ds := (s.loaded command).ds } (s.loaded command).requestLen =
        .ok (s.loaded command) := execute_eq s command
    rw [Driver.request, hload]
    rfl
  refine ⟨w.after ((w.driver.put (s.loaded command)).schedule.1,
    .accepted s.id :: (w.driver.put (s.loaded command)).schedule.2), ?_, ?_, rfl, ?_, ?_⟩
  · unfold Clients.execute
    dsimp only
    change (match w.driver.request { s with ds := (s.loaded command).ds } (s.loaded command).requestLen with
      | .error .tooLarge => _
      | .ok r => _) = _
    rw [hrequest]
    rfl
  · change Sound _ (w.unanswered ++ List.filterMap _ _)
    rw [List.filterMap_cons_none rfl]
    exact hsteady.schedule
  · exact hsteady.advances_schedule.ids.trans ((map_id_put w.driver _).trans (map_id_fill c.world s.id _))
  · intro t ht
    obtain ⟨u, hu, hkept⟩ := hsteady.kept_schedule t ht
    rcases mem_put hu with rfl | ⟨hu, hne⟩
    · exact .inl hkept
    · rcases hfill.stands u hu with ⟨v, hv, he⟩ | ⟨hn, -⟩
      · rw [he] at hne hkept
        exact .inr ⟨v, hv, hne, (kept_fill v u.ds).trans hkept⟩
      · exact absurd (hfill.fresh u hu) (Nat.not_lt.mpr hn)

/-- Executing a command keeps the clients in agreement, and nobody waits in vain
exactly if the command fits. -/
theorem Settled.after_execute (h : Settled c) (hs : s ∈ c.world.sessions) (hready : c.client s.id = .ready)
    (command : Cstring) : Settled (c.execute s command).1 ∧
      (NoIdleWait c → (NoIdleWait (c.execute s command).1 ↔
        1 ≤ command.strlen ∧ command.strlen ≤ MAX_REQUEST_LEN)) := by
  obtain ⟨w, he, hsound, hnext, hids, hsessions⟩ := h.execute hs hready command
  have hidle : (s.loaded command).phase = .idle ↔
      ¬ (1 ≤ command.strlen ∧ command.strlen ≤ MAX_REQUEST_LEN) := by
    refine idle_loaded ?_ command
    by_contra hne
    obtain ⟨n, hn⟩ := Option.ne_none_iff_exists'.mp hne
    have hagrees := h.agrees s hs
    rw [hready] at hagrees
    exact nomatch (Session.phase_executing hn).symm.trans hagrees
  rw [he]
  refine ⟨⟨hsound, fun t ht => ?_, fun t ht => ?_⟩, fun hno => ⟨fun hno' => ?_, fun hfits t ht => ?_⟩⟩
  · have hmem : t.id ∈ c.world.sessions.map (·.id) := hids ▸ List.mem_map_of_mem ht
    obtain ⟨u, hu, hid⟩ := List.mem_map.mp hmem
    exact hnext ▸ hid ▸ h.fresh u hu
  · rcases hsessions t ht with hkept | ⟨u, hu, hne, hkept⟩
    · have hid : t.id = s.id := hkept.id
      simp only [Clients.become, hid, Function.update_self]
      exact (Settled.loaded_agrees s command).kept hkept
    · simp only [Clients.become, hkept.id, Function.update_of_ne hne]
      exact (h.agrees u hu).kept hkept
  · have hmem : s.id ∈ w.sessions.map (·.id) := hids ▸ List.mem_map_of_mem hs
    obtain ⟨t, ht, hid⟩ := List.mem_map.mp hmem
    rcases hsessions t ht with hkept | ⟨u, -, hne, hkept⟩
    · by_contra hfits
      have hwaits := hno' t ht
      simp only [Clients.become, hid, Function.update_self] at hwaits
      rw [Client.noIdleWait_kept hkept] at hwaits
      exact hwaits rfl (hidle.mpr hfits)
    · exact absurd (hkept.id.symm.trans hid) hne
  · rcases hsessions t ht with hkept | ⟨u, hu, hne, hkept⟩
    · have hid : t.id = s.id := hkept.id
      simp only [Clients.become, hid, Function.update_self]
      rw [Client.noIdleWait_kept hkept]
      exact fun _ hphase => hidle.mp hphase hfits
    · simp only [Clients.become, hkept.id, Function.update_of_ne hne]
      exact (Client.noIdleWait_kept hkept).mpr (hno u hu)

/-- A client takes the response, or waits on. -/
theorem Settled.after_signal (h : Settled c) (hs : s ∈ c.world.sessions)
    (hwaiting : c.client s.id = .waiting n) :
    Settled (c.signal s n).1 ∧ (NoIdleWait c → NoIdleWait (c.signal s n).1) := by
  by_cases hcount : s.responseCount = n
  · simpa [Clients.signal, hcount] using h
  · have hagrees := h.agrees s hs
    rw [hwaiting] at hagrees
    obtain ⟨hidle, hres⟩ := hagrees.resolve_left hcount
    have hready : (c.signal s n).1 = c.become s.id .ready := by
      unfold Clients.signal Session.response
      rw [if_neg hcount]
      cases hresult : s.responseResult with
      | ok len => rfl
      | error e =>
        cases e with
        | unknown => exact absurd hresult hres
        | tooLarge => rfl
    have heq : ∀ t ∈ c.world.sessions, t.id = s.id → t = s :=
      fun t ht hid => eq_of_id h.sound.nodup ht hs hid
    rw [hready]
    refine ⟨⟨h.sound, h.fresh, fun t ht => ?_⟩, fun hno t ht => ?_⟩
    all_goals by_cases hid : t.id = s.id
    · obtain rfl := heq t ht hid
      simp only [Clients.become, Function.update_self]
      exact hidle
    · simp only [Clients.become, Function.update_of_ne hid]
      exact h.agrees t ht
    · simp only [Clients.become, hid, Function.update_self]
      nofun
    · simp only [Clients.become, Function.update_of_ne hid]
      exact hno t ht

-- ---------------------------------------------------------------------------
-- Runs
-- ---------------------------------------------------------------------------

theorem Settled.answer (h : Settled c) (seq : UInt32) (mob : SharedBuffer) :
    Settled (clients.next c (.answer seq mob)) ∧
      (NoIdleWait c → NoIdleWait (clients.next c (.answer seq mob))) := by
  by_cases hseq : seq ∈ c.world.unanswered
  · have hsteady := h.sound.steady_answering hseq mob
    have hafter := hsteady.delivered
    have hstep := h.sound.step_answer hseq mob
    refine h.follow ?_ ?_ ?_
    · have hsound := hafter.schedule
      rw [hstep]
      change Sound _ ([] ++ _)
      rwa [submittedSeq_handleIrq]
    · rw [hstep]
      rfl
    · rw [hstep]
      exact hsteady.follow_delivered.kept hafter.kept_schedule
  · have hsame : (c.world.step (.answer seq mob)).1 = c.world := by simp [World.step, hseq]
    change Settled { c with world := (c.world.step (.answer seq mob)).1 } ∧
      (NoIdleWait c → NoIdleWait { c with world := (c.world.step (.answer seq mob)).1 })
    rw [hsame]
    exact ⟨h, fun hno => hno⟩

theorem Settled.interrupt (h : Settled c) :
    Settled (clients.next c .interrupt) ∧ (NoIdleWait c → NoIdleWait (clients.next c .interrupt)) := by
  refine h.follow h.sound.toSteady.schedule rfl fun t ht => ?_
  obtain ⟨s, hs, hkept⟩ := h.sound.toSteady.kept_schedule t ht
  exact ⟨s, hs, .inl hkept⟩

theorem Settled.openSession (h : Settled c) (pos : Nat) :
    Settled (clients.next c (.openSession pos)) ∧
      (NoIdleWait c → NoIdleWait (clients.next c (.openSession pos))) := by
  refine h.restock (restocks_openSession h.sound.nodup h.fresh pos) (fun j hj => ?_) fun j hj hlt => ?_
  · exact Function.update_of_ne hj.ne _ _
  · have hlast : j = c.world.nextId := le_antisymm (Nat.lt_succ_iff.mp hlt) hj
    rw [hlast]
    exact Function.update_self _ _ _

theorem Settled.closeSession (h : Settled c) (j : Nat) :
    Settled (clients.next c (.closeSession j)) ∧
      (NoIdleWait c → NoIdleWait (clients.next c (.closeSession j))) :=
  h.restock (restocks_closeSession h.sound.nodup h.fresh j) (fun _ _ => rfl)
    fun _ hj hlt => absurd hlt (Nat.not_lt.mpr hj)

/-- Each step keeps the clients in agreement with their sessions, and keeps them from
waiting in vain exactly if a command it executes fits. -/
theorem Settled.next (h : Settled c) (a : Act) : Settled (clients.next c a) ∧
    (NoIdleWait c → (NoIdleWait (clients.next c a) ↔ Fits c a)) := by
  have hfits : ∀ {c'}, Settled c' ∧ (NoIdleWait c → NoIdleWait c') → Fits c a →
      Settled c' ∧ (NoIdleWait c → (NoIdleWait c' ↔ Fits c a)) :=
    fun hc' hf => hc'.imp_right fun hno hP => iff_of_true (hno hP) hf
  cases a with
  | openSession pos => exact hfits (h.openSession pos) trivial
  | closeSession j => exact hfits (h.closeSession j) trivial
  | answer seq mob => exact hfits (h.answer seq mob) trivial
  | interrupt => exact hfits h.interrupt trivial
  | execute id command =>
    have hstep : clients.next c (.execute id command) = (c.step (.execute id command)).1 := rfl
    rw [hstep, Clients.step]
    split
    · rename_i s hfind hready
      obtain ⟨hs, rfl⟩ := mem_of_find? hfind
      obtain ⟨hsettled, hno⟩ := h.after_execute hs hready command
      refine ⟨hsettled, fun hP => (hno hP).trans ⟨fun hlen _ _ => hlen, fun hlen => ?_⟩⟩
      exact hlen ⟨s, hs, rfl⟩ hready
    · rename_i hnot
      refine ⟨h, fun hP => iff_of_true hP ?_⟩
      rintro ⟨s, hs, hid⟩ hready
      obtain ⟨t, ht⟩ := Option.isSome_iff_exists.mp
        (List.find?_isSome (p := fun s : Session => decide (s.id = id)) |>.mpr ⟨s, hs, decide_eq_true hid⟩)
      exact absurd hready (hnot t ht)
  | signal id =>
    have hstep : clients.next c (.signal id) = (c.step (.signal id)).1 := rfl
    rw [hstep, Clients.step]
    refine hfits ?_ trivial
    split
    · rename_i s n hfind hwaiting
      obtain ⟨hs, rfl⟩ := mem_of_find? hfind
      exact h.after_signal hs hwaiting
    · exact ⟨h, fun hno => hno⟩

theorem settled_init : Settled {} where
  sound := tracked_init.sound
  fresh := nofun
  agrees := nofun

/-- Nobody ever waits without an outstanding request exactly if all commands
executed have one character at least and fit. -/
theorem no_idle_wait_iff (acts : List Act) :
    (∀ pre, pre <+: acts → NoIdleWait (clients.run {} pre)) ↔ clients.Along Fits {} acts :=
  System.throughout_iff_along (I := Settled) (fun _ a h _ _ => (h.next a).1)
    (fun _ a h hP => (h.next a).2 hP) settled_init nofun

theorem empty_command_waits :
    ¬ NoIdleWait (clients.run {} [.openSession 0, .execute 0 ⟨[], List.not_mem_nil⟩]) := by
  intro hno
  exact hno (Session.loaded { id := 0 } ⟨[], List.not_mem_nil⟩) (List.mem_singleton.mpr rfl) rfl rfl

end Allwinner.Scp
