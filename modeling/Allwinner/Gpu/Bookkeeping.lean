import Allwinner.Gpu.Books
import Allwinner.Gpu.Calls

/-!
# Bookkeeping of buffers

What each call does to the books of its session, and that it leaves the books of
the others alone. The books of a session stay kept exactly as long as it forgets
no capability for a buffer of its own, and gives up its `Gpu_vram`s under the id
of their buffer and while the worker is free.
-/

namespace Allwinner.Gpu

open Library (System)

-- ---------------------------------------------------------------------------
-- The books of a session in the driver
-- ---------------------------------------------------------------------------

/-- The buffer object that `g` stands for, if `g` is a `Gpu_vram` of session `sid` that
the entrypoint manages. -/
def World.managedBo (w : World) (sid g : Nat) : Option Nat :=
  (w.vrams g).bind fun v => if v.owner = sid ∧ v.state = .managed then some v.bo else none

def World.books (w : World) (sid : Nat) (s : Session) : Books where
  serial id := (s.buffers.lookup id).map (·.serial)
  cap := s.lookupVramCap
  managed := w.managedBo sid

/-- Each buffer of the session has a `Vram_local` with the capability of its own
`Gpu_vram`, and each `Gpu_vram` of the session stands for such a buffer. -/
def Bookkept (sid : Nat) (w : World) : Prop :=
  ∀ s, w.sessions sid = some s → (w.books sid s).Kept

/-- Serial numbers tell the buffer objects of a session apart. -/
structure Serials (s : Session) : Prop where
  lt : ∀ id b, s.buffers.lookup id = some b → b.serial < s.nextSerial
  inj : ∀ id id' b b', s.buffers.lookup id = some b → s.buffers.lookup id' = some b' →
    b.serial = b'.serial → id = id'

/-- New sessions and new `Gpu_vram`s get numbers that nobody has. -/
structure Fresh (w : World) : Prop where
  session : ∀ j s, w.sessions j = some s → j < w.nextSession
  vram : ∀ g v, w.vrams g = some v → g < w.nextVram ∧ v.owner < w.nextSession

structure Registered (w : World) : Prop extends Fresh w where
  serials : ∀ j s, w.sessions j = some s → Serials s

variable {w w' : World} {sid id g : Nat} {s s' : Session} {env : Env} {a : Outcome}

@[simp] theorem managedBo_put (w : World) (sid j : Nat) (s : Session) :
    (w.put j s).managedBo sid = w.managedBo sid := rfl

theorem managedBo_setVram (w : World) (sid g : Nat) (v : GpuVram) :
    (w.setVram g v).managedBo sid = Function.update (w.managedBo sid) g
      (if v.owner = sid ∧ v.state = .managed then some v.bo else none) := by
  funext g'
  by_cases hg : g' = g
  · subst hg
    simp [World.managedBo, World.setVram]
  · simp [World.managedBo, World.setVram, hg]

/-- A `Gpu_vram` that keeps its owner and stays where it is changes no books. -/
theorem managedBo_setVram_same (hv : w.vrams g = some v) (howner : v'.owner = v.owner)
    (hbo : v'.bo = v.bo) (hstate : v'.state = v.state) (sid : Nat) :
    (w.setVram g v').managedBo sid = w.managedBo sid := by
  rw [managedBo_setVram, howner, hbo, hstate]
  refine Function.update_eq_iff.mpr ⟨?_, fun _ _ => rfl⟩
  simp [World.managedBo, hv]

/-- A `Gpu_vram` of one session is in no other session's books. -/
theorem managedBo_setVram_other (hv : ∀ u, w.vrams g = some u → u.owner ≠ sid) (hv' : v'.owner ≠ sid) :
    (w.setVram g v').managedBo sid = w.managedBo sid := by
  rw [managedBo_setVram, if_neg fun h => hv' h.1]
  refine Function.update_eq_iff.mpr ⟨?_, fun _ _ => rfl⟩
  cases hu : w.vrams g with
  | none => simp [World.managedBo, hu]
  | some u => simp [World.managedBo, hu, hv u hu]

theorem Serials.distinct (h : Serials s) : (w.books sid s).Distinct := by
  intro id id' n hn hn'
  obtain ⟨b, hb, hbn⟩ := Option.map_eq_some_iff.mp hn
  obtain ⟨b', hb', hbn'⟩ := Option.map_eq_some_iff.mp hn'
  exact h.inj id id' b b' hb hb' (hbn.trans hbn'.symm)

theorem Serials.erase (h : Serials s) (hbuffers : s'.buffers = s.buffers.erase id)
    (hnext : s'.nextSerial = s.nextSerial) : Serials s' := by
  have hold : ∀ j b, s'.buffers.lookup j = some b → s.buffers.lookup j = some b := by
    intro j b hb
    rw [hbuffers] at hb
    by_cases hj : j = id
    · rw [hj, AList.lookup_erase] at hb
      cases hb
    · rwa [AList.lookup_erase_ne hj] at hb
  refine ⟨fun j b hb => hnext ▸ h.lt j b (hold j b hb), fun j j' b b' hb hb' => ?_⟩
  exact h.inj j j' b b' (hold j b hb) (hold j' b' hb')

theorem Serials.insert (h : Serials s) {b : BufferObject} (hserial : b.serial = s.nextSerial)
    (hbuffers : s'.buffers = s.buffers.insert id b) (hnext : s'.nextSerial = s.nextSerial + 1) :
    Serials s' := by
  have hold : ∀ j c, s'.buffers.lookup j = some c →
      j = id ∧ c = b ∨ j ≠ id ∧ s.buffers.lookup j = some c := by
    intro j c hc
    rw [hbuffers] at hc
    by_cases hj : j = id
    · rw [hj, AList.lookup_insert] at hc
      exact .inl ⟨hj, (Option.some.inj hc).symm⟩
    · rw [AList.lookup_insert_ne hj] at hc
      exact .inr ⟨hj, hc⟩
  refine ⟨fun j c hc => ?_, fun j j' c c' hc hc' he => ?_⟩
  · rcases hold j c hc with ⟨-, rfl⟩ | ⟨-, hc⟩
    · omega
    · have := h.lt j c hc
      omega
  · rcases hold j c hc with ⟨rfl, rfl⟩ | ⟨-, hc⟩ <;> rcases hold j' c' hc' with ⟨rfl, rfl⟩ | ⟨-, hc'⟩
    · rfl
    · have := h.lt j' c' hc'
      omega
    · have := h.lt j c hc
      omega
    · exact h.inj j j' c c' hc hc' he

-- ---------------------------------------------------------------------------
-- Effects of a call
-- ---------------------------------------------------------------------------

/-- `w'` is `w` after something session `sid` does: it becomes `s'` with the books `k`,
and nobody else's books change. -/
structure Effect (w : World) (sid : Nat) (s : Session) (k : Books) (w' : World) (s' : Session) : Prop where
  sessions : w'.sessions = Function.update w.sessions sid (some s')
  nextSession : w'.nextSession = w.nextSession
  serials : Serials s → Serials s'
  books : w'.books sid s' = k
  others : ∀ j, j ≠ sid → w'.managedBo j = w.managedBo j
  vrams : sid < w.nextSession → (∀ g v, w.vrams g = some v → g < w.nextVram ∧ v.owner < w.nextSession) →
    ∀ g v, w'.vrams g = some v → g < w'.nextVram ∧ v.owner < w.nextSession

theorem effect_put (w : World) (sid : Nat) (hbuffers : s'.buffers = s.buffers)
    (hnext : s'.nextSerial = s.nextSerial) :
    Effect w sid s { w.books sid s with cap := s'.lookupVramCap } (w.put sid s') s' where
  sessions := rfl
  nextSession := rfl
  serials h := ⟨fun id b hb => hnext ▸ h.lt id b (hbuffers ▸ hb), fun id id' b b' hb hb' =>
    h.inj id id' b b' (hbuffers ▸ hb) (hbuffers ▸ hb')⟩
  books := by simp [World.books, hbuffers]
  others _ _ := rfl
  vrams _ h := h

theorem lookupVramCap_congr (h : s'.vramLocals = s.vramLocals) : s'.lookupVramCap = s.lookupVramCap := by
  funext id
  rw [Session.lookupVramCap, Session.lookupVramCap, h]

theorem effect_slotsOnly (w : World) (sid : Nat) (h : s.SlotsOnly s') :
    Effect w sid s (w.books sid s) (w.put sid s') s' := by
  have := effect_put w sid h.buffers h.nextSerial
  rwa [lookupVramCap_congr h.vramLocals] at this

/-- A session that stays as it is. -/
theorem effect_same (hs : w.sessions sid = some s) : Effect w sid s (w.books sid s) w s := by
  have hput : w.put sid s = w := by
    unfold World.put
    rw [← hs, Function.update_eq_self]
  have := effect_slotsOnly w sid (Session.slotsOnly_slots s s.pending s.completed)
  rwa [hput] at this

theorem execute_effect (h : execute w sid s env id = .ok a) :
    ∃ s', Effect w sid s (w.books sid s) a.world s' := by
  unfold execute at h
  obtain ⟨b, hb, h⟩ := bind_ok.mp h
  have hslots := Session.scheduleRequest_slotsOnly (by rintro ⟨⟩) (by rintro ⟨⟩) hb
  split at h
  · obtain rfl := pure_ok.mp h
    exact ⟨_, effect_slotsOnly w sid hslots⟩
  · obtain rfl := pure_ok.mp h
    exact ⟨_, effect_slotsOnly w sid hslots⟩

/-- A session whose flag changes along with its slots. -/
theorem effect_flags (w : World) (sid : Nat) (hbuffers : s'.buffers = s.buffers)
    (hlocals : s'.vramLocals = s.vramLocals) (hnext : s'.nextSerial = s.nextSerial) :
    Effect w sid s (w.books sid s) (w.put sid s') s' := by
  have := effect_put w sid hbuffers hnext
  rwa [lookupVramCap_congr hlocals] at this

theorem complete_effect (hs : w.sessions sid = some s) (h : complete w sid s env seqno = .ok a) :
    ∃ s', Effect w sid s (w.books sid s) a.world s' := by
  unfold complete at h
  split at h
  · obtain rfl := pure_ok.mp h
    exact ⟨s, effect_same hs⟩
  · split at h
    · obtain rfl := pure_ok.mp h
      exact ⟨s, effect_same hs⟩
    · split at h
      · obtain rfl := pure_ok.mp h
        exact ⟨_, effect_flags w sid rfl rfl rfl⟩
      · obtain ⟨b, hb, h⟩ := bind_ok.mp h
        have hslots := Session.scheduleRequest_slotsOnly (by rintro ⟨⟩) (by rintro ⟨⟩) hb
        split at h
        · obtain rfl := pure_ok.mp h
          exact ⟨_, effect_flags w sid hslots.buffers hslots.vramLocals hslots.nextSerial⟩
        · obtain rfl := pure_ok.mp h
          exact ⟨_, effect_flags w sid hslots.buffers hslots.vramLocals hslots.nextSerial⟩

theorem setTilingGpu_effect (hs : w.sessions sid = some s) (h : setTilingGpu w sid s env id mode = .ok a) :
    ∃ s', Effect w sid s (w.books sid s) a.world s' := by
  unfold setTilingGpu at h
  split at h
  · obtain rfl := pure_ok.mp h
    exact ⟨s, effect_same hs⟩
  · split at h
    · obtain rfl := pure_ok.mp h
      exact ⟨_, effect_flags w sid rfl rfl rfl⟩
    · obtain ⟨b, hb, h⟩ := bind_ok.mp h
      have hslots := Session.scheduleRequest_slotsOnly (by rintro ⟨⟩) (by rintro ⟨⟩) hb
      split at h
      · obtain rfl := pure_ok.mp h
        exact ⟨_, effect_flags w sid hslots.buffers hslots.vramLocals hslots.nextSerial⟩
      · obtain rfl := pure_ok.mp h
        exact ⟨_, effect_flags w sid hslots.buffers hslots.vramLocals hslots.nextSerial⟩

-- ---------------------------------------------------------------------------
-- Effects on `_vram_local_space`
-- ---------------------------------------------------------------------------

theorem lookupVramCap_erase (h : s'.vramLocals = s.vramLocals.erase id) :
    s'.lookupVramCap = Function.update s.lookupVramCap id none := by
  funext j
  by_cases hj : j = id
  · subst hj
    simp [Session.lookupVramCap, h]
  · simp [Session.lookupVramCap, h, hj]

theorem lookupVramCap_insert {vl : VramLocal} (h : s'.vramLocals = s.vramLocals.insert id vl) :
    s'.lookupVramCap = Function.update s.lookupVramCap id vl.vramCap := by
  funext j
  by_cases hj : j = id
  · subst hj
    simp [Session.lookupVramCap, h]
  · simp [Session.lookupVramCap, h, hj]

/-- A `Vram_local` that keeps its capability. -/
theorem lookupVramCap_replace {vl vl' : VramLocal} (hvl : s.vramLocals.lookup id = some vl)
    (hcap : vl'.vramCap = vl.vramCap) (h : s'.vramLocals = s.vramLocals.insert id vl') :
    s'.lookupVramCap = s.lookupVramCap := by
  rw [lookupVramCap_insert h]
  refine Function.update_eq_iff.mpr ⟨?_, fun _ _ => rfl⟩
  simp [Session.lookupVramCap, hvl, hcap]

/-- A session whose `Vram_local`s change along with its slots. -/
theorem effect_locals (w : World) (sid : Nat) (h : s.SlotsOnly s') (locals : IdSpace VramLocal) :
    Effect w sid s { w.books sid s with cap := ({ s' with vramLocals := locals } : Session).lookupVramCap }
      (w.put sid { s' with vramLocals := locals }) { s' with vramLocals := locals } :=
  effect_put w sid h.buffers h.nextSerial

theorem effect_replace (w : World) (sid : Nat) {vl : VramLocal} (h : s.SlotsOnly s')
    (hvl : s.vramLocals.lookup id = some vl) (vl' : VramLocal) (hcap : vl'.vramCap = vl.vramCap) :
    Effect w sid s (w.books sid s)
      (w.put sid { s' with vramLocals := s'.vramLocals.insert id vl' })
      { s' with vramLocals := s'.vramLocals.insert id vl' } := by
  have heffect := effect_locals w sid h (s'.vramLocals.insert id vl')
  rwa [lookupVramCap_replace hvl hcap (by rw [h.vramLocals])] at heffect

theorem effect_drop (w : World) (sid id : Nat) (h : s.SlotsOnly s') :
    Effect w sid s ((w.books sid s).drop id)
      (w.put sid { s' with vramLocals := s'.vramLocals.erase id })
      { s' with vramLocals := s'.vramLocals.erase id } := by
  have heffect := effect_locals w sid h (s'.vramLocals.erase id)
  rwa [lookupVramCap_erase (s := s) (by rw [h.vramLocals])] at heffect

theorem unmapCpu_effect (hs : w.sessions sid = some s) (h : unmapCpu w sid s env id = .ok a) :
    ∃ s', Effect w sid s ((w.books sid s).drop id) a.world s' := by
  unfold unmapCpu at h
  cases hvl : s.vramLocals.lookup id with
  | none =>
    rw [hvl] at h
    obtain rfl := pure_ok.mp h
    have hdrop : (w.books sid s).drop id = w.books sid s := by
      have hcap : (w.books sid s).cap id = none := by simp [World.books, Session.lookupVramCap, hvl]
      exact Books.ext rfl (Function.update_eq_iff.mpr ⟨hcap.symm, fun _ _ => rfl⟩) rfl
    rw [hdrop]
    exact ⟨s, effect_same hs⟩
  | some vl =>
    rw [hvl] at h
    dsimp only at h
    split at h
    · obtain ⟨b, hb, h⟩ := bind_ok.mp h
      obtain rfl := pure_ok.mp h
      exact ⟨_, effect_drop w sid id (Session.scheduleRequest_slotsOnly (by rintro ⟨⟩) (by rintro ⟨⟩) hb)⟩
    · obtain rfl := pure_ok.mp h
      exact ⟨_, effect_drop w sid id (Session.slotsOnly_slots s s.pending s.completed)⟩

theorem openImport_effect {vl : VramLocal} (hvl : s.vramLocals.lookup id = some vl)
    (h : openImport w sid s env cap id vl = .ok a) : ∃ s', Effect w sid s (w.books sid s) a.world s' := by
  unfold openImport at h
  split at h
  · obtain rfl := pure_ok.mp h
    exact ⟨s, effect_slotsOnly w sid (Session.slotsOnly_slots s s.pending s.completed)⟩
  · obtain ⟨v, -, h⟩ := bind_ok.mp h
    obtain ⟨b, hb, h⟩ := bind_ok.mp h
    have hslots := Session.scheduleRequest_slotsOnly (by rintro ⟨⟩) (by rintro ⟨⟩) hb
    split at h
    · obtain rfl := pure_ok.mp h
      exact ⟨_, effect_slotsOnly w sid hslots⟩
    · rename_i r _
      obtain rfl := pure_ok.mp h
      exact ⟨_, effect_replace w sid hslots hvl { vl with importHandle := some r.operation.handle } rfl⟩

/-- What the session imports goes under an id that it has no `Vram_local` for. -/
theorem importVram_effect (hs : w.sessions sid = some s) (h : importVram w sid s env cap id = .ok a) :
    ∃ s', Effect w sid s (w.books sid s) a.world s' ∨
      (w.books sid s).cap id = none ∧ Effect w sid s ((w.books sid s).importCap id cap) a.world s' := by
  unfold importVram at h
  cases hvl : s.vramLocals.lookup id with
  | some vl =>
    rw [hvl] at h
    obtain ⟨s', heffect⟩ := openImport_effect hvl h
    exact ⟨s', .inl heffect⟩
  | none =>
    rw [hvl] at h
    dsimp only at h
    split at h
    · obtain rfl := Except.ok.inj h
      exact ⟨s, .inl (effect_same hs)⟩
    · obtain ⟨s', heffect⟩ := openImport_effect (AList.lookup_insert _) h
      have hcap : (w.books sid s).cap id = none := by simp [World.books, Session.lookupVramCap, hvl]
      refine ⟨s', .inr ⟨hcap, ?_⟩⟩
      have hbooks : w.books sid { s with vramLocals := s.vramLocals.insert id { vramCap := cap } } =
          (w.books sid s).importCap id cap :=
        Books.ext rfl (@lookupVramCap_insert id s _ { vramCap := cap } rfl) rfl
      rw [← hbooks]
      exact { heffect with serials := fun hserials => heffect.serials ⟨hserials.lt, hserials.inj⟩ }

theorem apply_ok : w.apply cap = .ok v ↔ ∃ g, cap = some g ∧ w.vrams g = some v ∧ v.state = .managed := by
  cases cap with
  | none => simp [World.apply]
  | some g =>
    cases hv : w.vrams g with
    | none => simp [World.apply, hv]
    | some u =>
      by_cases hstate : u.state = .managed
      · simp only [World.apply, hv, if_pos hstate, Except.ok.injEq, Option.some.injEq, exists_eq_left']
        exact ⟨fun he => ⟨he, he ▸ hstate⟩, fun he => he.1⟩
      · simp only [World.apply, hv, if_neg hstate, Option.some.injEq, exists_eq_left', reduceCtorEq,
          false_iff]
        rintro ⟨rfl, hmanaged⟩
        exact hstate hmanaged

theorem lookupExport_effect {vl : VramLocal} (hvl : s.vramLocals.lookup id = some vl)
    (h : lookupExport w s env id vl = .ok (s', name, finished)) :
    Effect w sid s (w.books sid s) (w.put sid s') s' := by
  unfold lookupExport at h
  split at h
  · obtain ⟨rfl, -, -⟩ := Prod.mk.inj (pure_ok.mp h)
    exact effect_slotsOnly w sid (Session.slotsOnly_slots s s.pending s.completed)
  · obtain ⟨b, hb, h⟩ := bind_ok.mp h
    have hslots := Session.scheduleRequest_slotsOnly (by rintro ⟨⟩) (by rintro ⟨⟩) hb
    split at h
    · obtain ⟨rfl, -, -⟩ := Prod.mk.inj (pure_ok.mp h)
      exact effect_slotsOnly w sid hslots
    · obtain ⟨rfl, -, -⟩ := Prod.mk.inj (pure_ok.mp h)
      exact effect_replace w sid hslots hvl _ rfl

theorem vrams_setVram (hg : g < w.nextVram ∧ v'.owner < w.nextSession)
    (h : ∀ g v, w.vrams g = some v → g < w.nextVram ∧ v.owner < w.nextSession) :
    ∀ g' u, (w.setVram g v').vrams g' = some u → g' < w.nextVram ∧ u.owner < w.nextSession := by
  intro g' u hu
  by_cases hg' : g' = g
  · subst hg'
    obtain rfl : v' = u := by simpa [World.setVram] using hu
    exact hg
  · exact h g' u (by simpa [World.setVram, hg'] using hu)

/-- Nobody's books have the name of an export in them. -/
theorem Effect.setVram (h : Effect w sid s k (w.put sid s') s') (hv : w.vrams g = some v)
    (howner : v'.owner = v.owner) (hbo : v'.bo = v.bo) (hstate : v'.state = v.state) :
    Effect w sid s k ((w.setVram g v').put sid s') s' where
  sessions := h.sessions
  nextSession := h.nextSession
  serials := h.serials
  books := by
    rw [← h.books]
    exact Books.ext rfl rfl (managedBo_setVram_same hv howner hbo hstate sid)
  others j _ := managedBo_setVram_same hv howner hbo hstate j
  vrams _ hvrams := vrams_setVram (howner ▸ hvrams g v hv) hvrams

theorem exportVram_effect (hs : w.sessions sid = some s) (h : exportVram w sid s env id = .ok a) :
    ∃ s', Effect w sid s (w.books sid s) a.world s' := by
  unfold exportVram at h
  cases hvl : s.vramLocals.lookup id with
  | none =>
    rw [hvl] at h
    obtain rfl := pure_ok.mp h
    exact ⟨s, effect_same hs⟩
  | some vl =>
    rw [hvl] at h
    dsimp only at h
    obtain ⟨⟨t, name, finished⟩, hb, h⟩ := bind_ok.mp h
    have heffect : Effect w sid s _ _ t := lookupExport_effect hvl hb
    dsimp only at h
    split at h
    · obtain rfl := pure_ok.mp h
      exact ⟨t, heffect⟩
    · obtain ⟨v, hv, h⟩ := bind_ok.mp h
      obtain ⟨g, hcap, hv, -⟩ := apply_ok.mp hv
      obtain rfl := pure_ok.mp h
      rw [hcap]
      refine ⟨t, heffect.setVram hv ?_ ?_ ?_⟩
      all_goals split <;> rfl

-- ---------------------------------------------------------------------------
-- Effects on all three
-- ---------------------------------------------------------------------------

theorem managedBo_eq_some : w.managedBo sid g = some n ↔
    ∃ v, w.vrams g = some v ∧ v.owner = sid ∧ v.state = .managed ∧ v.bo = n := by
  rw [World.managedBo, Option.bind_eq_some_iff]
  refine exists_congr fun v => and_congr_right fun _ => ?_
  by_cases h : v.owner = sid ∧ v.state = .managed
  · simp [h]
  · rw [if_neg h]
    simp only [reduceCtorEq, false_iff]
    exact fun ⟨howner, hstate, _⟩ => h ⟨howner, hstate⟩

theorem serial_erase (h : s'.buffers = s.buffers.erase id) : (w'.books sid s').serial =
    Function.update (w.books sid s).serial id none := by
  funext j
  by_cases hj : j = id
  · subst hj
    simp [World.books, h]
  · simp [World.books, h, hj]

theorem serial_insert {b : BufferObject} (h : s'.buffers = s.buffers.insert id b) :
    (w'.books sid s').serial = Function.update (w.books sid s).serial id (some b.serial) := by
  funext j
  by_cases hj : j = id
  · subst hj
    simp [World.books, h]
  · simp [World.books, h, hj]

/-- The `Gpu_vram` goes for good, the buffer object only if the worker takes the request. -/
theorem effect_release {r : Request} (env : Env) (htype : r.operation.type = .free)
    (hv : w.vrams g = some v) (howner : v.owner = sid) :
    let t := (Session.scheduled { s with vramLocals := s.vramLocals.erase r.operation.id } env r).session
    Effect w sid s ((w.books sid s).release r.operation.id g (!s.pending.valid))
      ((w.setVram g { v with state := .dissolved }).put sid t) t := by
  intro t
  obtain ⟨hlocals, hnext, hbuffers⟩ : t.vramLocals = s.vramLocals.erase r.operation.id ∧
      t.nextSerial = s.nextSerial ∧
      (t.buffers = s.buffers ∧ (s.pending.valid = true ∨ s.buffers.lookup r.operation.id = none) ∨
        s.pending.valid = false ∧ t.buffers = s.buffers.erase r.operation.id) := by
    rcases Session.scheduled_free { s with vramLocals := s.vramLocals.erase r.operation.id } env htype with
      ⟨hno, he⟩ | ⟨hpending, -, hslots⟩
    · have ht : t = { s with vramLocals := s.vramLocals.erase r.operation.id } :=
        congrArg Session.Scheduled.session he
      exact ⟨by rw [ht], by rw [ht], .inl ⟨by rw [ht], hno⟩⟩
    · exact ⟨hslots.vramLocals, hslots.nextSerial, .inr ⟨hpending, hslots.buffers⟩⟩
  refine ⟨rfl, rfl, fun hserials => ?_, Books.ext ?_ (lookupVramCap_erase hlocals) ?_, fun j hj => ?_,
    fun _ hvrams => vrams_setVram (hvrams g v hv) hvrams⟩
  · rcases hbuffers with ⟨hb, -⟩ | ⟨-, hb⟩
    · exact (effect_put w sid hb hnext).serials hserials
    · exact hserials.erase hb hnext
  · rcases hbuffers with ⟨hb, hno⟩ | ⟨hpending, hb⟩
    · have hsame : (World.books ((w.setVram g { v with state := .dissolved }).put sid t) sid t).serial =
          (w.books sid s).serial := by simp [World.books, hb]
      rw [hsame]
      rcases hno with hpending | hnone
      · simp [Books.release, hpending]
      · have hnone' : (w.books sid s).serial r.operation.id = none := by simp [World.books, hnone]
        simp [Books.release, ← hnone']
    · rw [serial_erase (s := s) (w := w) hb]
      simp [Books.release, hpending]
  · rw [Books.release]
    refine (managedBo_setVram w sid g _).trans ?_
    simp [World.books]
  · refine managedBo_setVram_other (fun u hu => ?_) (howner ▸ hj.symm)
    obtain rfl := Option.some.inj (hv.symm.trans hu)
    exact howner ▸ hj.symm

/-- The session dissolves what its own capability for `id` names, and frees the buffer
`id` if the worker takes the request. -/
theorem unmapGpu_effect (h : unmapGpu w sid s env id = .ok a) :
    (a.result = .bool false ∧ a.world = w ∧
      ∀ g n, (w.books sid s).cap id = some g → (w.books sid s).managed g ≠ some n) ∨
    ∃ s' g n, a.result = .bool true ∧ (w.books sid s).cap id = some g ∧
      (w.books sid s).managed g = some n ∧
      Effect w sid s ((w.books sid s).release id g (!s.pending.valid)) a.world s' := by
  unfold unmapGpu at h
  cases hvl : s.vramLocals.lookup id with
  | none =>
    rw [hvl] at h
    obtain rfl := pure_ok.mp h
    refine .inl ⟨rfl, rfl, fun g n hcap => ?_⟩
    simp [World.books, Session.lookupVramCap, hvl] at hcap
  | some vl =>
    rw [hvl] at h
    dsimp only at h
    have hcap : (w.books sid s).cap id = vl.vramCap := by simp [World.books, Session.lookupVramCap, hvl]
    split at h
    · rename_i hnone
      obtain rfl := pure_ok.mp h
      refine .inl ⟨rfl, rfl, fun g n hg => ?_⟩
      rw [hcap, hnone] at hg
      cases hg
    · rename_i g hg
      rw [hg] at hcap
      obtain ⟨v, hv, h⟩ := bind_ok.mp h
      obtain ⟨_, hsame, hv, hstate⟩ := apply_ok.mp hv
      obtain rfl := Option.some.inj hsame
      split at h
      · rename_i howner
        obtain rfl := pure_ok.mp h
        refine .inl ⟨rfl, rfl, fun g' n hg' hn => ?_⟩
        obtain rfl := Option.some.inj (hcap.symm.trans hg')
        obtain ⟨u, hu, huowner, -⟩ := managedBo_eq_some.mp hn
        obtain rfl := Option.some.inj (hv.symm.trans hu)
        exact howner huowner
      · rename_i howner
        have howner : v.owner = sid := not_not.mp howner
        obtain ⟨b, hb, h⟩ := bind_ok.mp h
        rw [Session.scheduleRequest_eq (r := freeRequest id (vl.exportName.getD 0)) (by rintro ⟨⟩)] at hb
        obtain rfl := Except.ok.inj hb
        obtain rfl := pure_ok.mp h
        have heffect := effect_release (s := s) (r := freeRequest id (vl.exportName.getD 0)) env rfl hv howner
        exact .inr ⟨_, g, v.bo, rfl, hcap, managedBo_eq_some.mpr ⟨v, hv, howner, hstate, rfl⟩, heffect⟩

/-- The world with a `Gpu_vram` more. -/
def World.addVram (w : World) (v : GpuVram) : World :=
  { w with nextVram := w.nextVram + 1 }.setVram w.nextVram v

theorem book_cases (w : World) (sid : Nat) (s : Session) (env : Env) (id : VramId) (b : BufferObject) :
    book w sid s env id b = (w, s, false) ∨
    book w sid s env id b =
      (w.addVram { bo := b.serial, owner := sid, state := .dissolved }, s, false) ∨
    s.vramLocals.lookup id = none ∧ book w sid s env id b =
      (w.addVram { bo := b.serial, owner := sid },
        { s with vramLocals := s.vramLocals.insert id { vramCap := some w.nextVram } }, true) := by
  unfold book
  split
  · exact .inl rfl
  · dsimp only
    split
    · exact .inr (.inl rfl)
    · rename_i hno
      obtain ⟨-, hnone⟩ : env.newVramLocal = true ∧ s.vramLocals.lookup id = none := by simpa using hno
      exact .inr (.inr ⟨hnone, rfl⟩)

theorem Fresh.vrams_nextVram (h : Fresh w) : w.vrams w.nextVram = none := by
  by_contra hne
  obtain ⟨v, hv⟩ := Option.ne_none_iff_exists'.mp hne
  exact absurd (h.vram w.nextVram v hv).1 (lt_irrefl _)

theorem managedBo_addVram_other (h : Fresh w) (hj : v.owner ≠ j) :
    (w.addVram v).managedBo j = w.managedBo j := by
  have hnone := h.vrams_nextVram
  refine managedBo_setVram_other (w := { w with nextVram := w.nextVram + 1 }) (fun u hu => ?_) hj
  have hu : w.vrams w.nextVram = some u := hu
  rw [hnone] at hu
  cases hu

theorem managedBo_addVram_dissolved (h : Fresh w) (hstate : v.state = .dissolved) (j : Nat) :
    (w.addVram v).managedBo j = w.managedBo j := by
  refine (managedBo_setVram { w with nextVram := w.nextVram + 1 } j w.nextVram v).trans ?_
  refine Function.update_eq_iff.mpr ⟨?_, fun _ _ => rfl⟩
  simp [World.managedBo, hstate, h.vrams_nextVram]

theorem vrams_addVram (howner : v.owner < w.nextSession)
    (h : ∀ g v, w.vrams g = some v → g < w.nextVram ∧ v.owner < w.nextSession) :
    ∀ g u, (w.addVram v).vrams g = some u → g < (w.addVram v).nextVram ∧ u.owner < w.nextSession :=
  vrams_setVram (w := { w with nextVram := w.nextVram + 1 }) ⟨Nat.lt_succ_self _, howner⟩
    fun g u hu => (h g u hu).imp_left fun hg => hg.trans (Nat.lt_succ_self _)

theorem effect_map (hfresh : Fresh w) {b : BufferObject} (hserial : b.serial = s.nextSerial)
    (hbuffers : s'.buffers = s.buffers.insert id b) (hnext : s'.nextSerial = s.nextSerial + 1)
    (hlocals : s'.vramLocals = s.vramLocals.insert id { vramCap := some w.nextVram }) :
    Effect w sid s ((w.books sid s).map id b.serial w.nextVram)
      ((w.addVram { bo := b.serial, owner := sid }).put sid s') s' where
  sessions := rfl
  nextSession := rfl
  serials h := h.insert hserial hbuffers hnext
  books := by
    refine Books.ext (serial_insert hbuffers) (lookupVramCap_insert hlocals) ?_
    refine (managedBo_setVram { w with nextVram := w.nextVram + 1 } sid w.nextVram _).trans ?_
    rw [if_pos ⟨rfl, rfl⟩]
    rfl
  others _ hj := managedBo_addVram_other hfresh hj.symm
  vrams hsid h := vrams_addVram hsid h

/-- A buffer that was freed right away. -/
theorem effect_rollback {b : BufferObject} (hnone : s.buffers.lookup id = none)
    (hserial : b.serial = s.nextSerial) (hbuffers : s'.buffers = (s.buffers.insert id b).erase id)
    (hnext : s'.nextSerial = s.nextSerial + 1) (hlocals : s'.vramLocals = s.vramLocals)
    (hsessions : w'.sessions = w.sessions) (hnextSession : w'.nextSession = w.nextSession)
    (hmanaged : ∀ j, w'.managedBo j = w.managedBo j)
    (hvrams : sid < w.nextSession →
      (∀ g v, w.vrams g = some v → g < w.nextVram ∧ v.owner < w.nextSession) →
      ∀ g v, w'.vrams g = some v → g < w'.nextVram ∧ v.owner < w.nextSession) :
    Effect w sid s (w.books sid s) (w'.put sid s') s' where
  sessions := by simp [World.put, hsessions]
  nextSession := hnextSession
  serials h := by
    have hinsert : Serials { s with buffers := s.buffers.insert id b, nextSerial := s.nextSerial + 1 } :=
      h.insert hserial rfl rfl
    exact hinsert.erase hbuffers hnext
  books := by
    refine Books.ext (funext fun j => ?_) (lookupVramCap_congr hlocals) (hmanaged sid)
    by_cases hj : j = id
    · subst hj
      simp [World.books, hbuffers, hnone]
    · simp [World.books, hbuffers, hj]
  others j _ := hmanaged j
  vrams := hvrams

/-- A new buffer gets a `Gpu_vram` and a `Vram_local`, or nothing is left of it. -/
theorem mapGpu_effect (hs : w.sessions sid = some s) (hfresh : Fresh w)
    (h : mapGpu w sid s env id size va = .ok a) :
    ∃ s', Effect w sid s (w.books sid s) a.world s' ∨
      ∃ n g, (w.books sid s).serial id = none ∧ (w.books sid s).cap id = none ∧
        (w.books sid s).managed g = none ∧ Effect w sid s ((w.books sid s).map id n g) a.world s' := by
  unfold mapGpu at h
  split at h
  · obtain rfl := pure_ok.mp h
    exact ⟨s, .inl (effect_same hs)⟩
  · rename_i hnone
    have hnone : s.buffers.lookup id = none := by simpa using hnone
    split at h
    · obtain rfl := pure_ok.mp h
      exact ⟨s, .inl (effect_same hs)⟩
    · obtain ⟨b, hb, h⟩ := bind_ok.mp h
      rw [Session.scheduleRequest_eq (r := allocRequest id size (va % 2 ^ 32)) (by rintro ⟨⟩)] at hb
      obtain rfl := Except.ok.inj hb
      rcases Session.scheduled_alloc (r := allocRequest id size (va % 2 ^ 32)) s env rfl with
        ⟨hresult, hslots⟩ | ⟨bo, hserial, hresult, hpending, hslots⟩
      · rw [hresult] at h
        obtain rfl := pure_ok.mp h
        exact ⟨_, .inl (effect_slotsOnly w sid hslots)⟩
      · generalize s.scheduled env (allocRequest id size (va % 2 ^ 32)) = t at h hresult hpending hslots
        have hbuffers : t.session.buffers = s.buffers.insert id bo := hslots.buffers
        have hlookup : t.session.buffers.lookup id = some bo := by
          rw [hbuffers]
          exact AList.lookup_insert _
        have hsid : sid < w.nextSession := hfresh.session sid s hs
        have hcap : (w.books sid s).cap = t.session.lookupVramCap :=
          (lookupVramCap_congr (s := s) hslots.vramLocals).symm
        rw [if_neg (by simpa [Option.isSome_iff_ne_none] using hresult), hlookup] at h
        dsimp only at h
        -- the buffer is booked, or freed by the request in front of the result
        have hfreed : ∀ w' : World, w'.sessions = w.sessions → w'.nextSession = w.nextSession →
            (∀ j, w'.managedBo j = w.managedBo j) →
            (∀ g v, w'.vrams g = some v → g < w'.nextVram ∧ v.owner < w.nextSession) →
            Effect w sid s (w.books sid s) (w'.put sid (t.session.scheduled env (freeRequest id 0)).session)
              (t.session.scheduled env (freeRequest id 0)).session := by
          intro w' hsessions hnext hmanaged hvrams
          rcases Session.scheduled_free (r := freeRequest id 0) t.session env rfl with
            ⟨hno | hno, -⟩ | ⟨-, -, hslots'⟩
          · rw [hpending] at hno
            cases hno
          · exact absurd (hlookup.symm.trans hno) (by simp)
          · exact effect_rollback hnone hserial (hslots'.buffers.trans (congrArg (AList.erase id) hbuffers))
              (hslots'.nextSerial.trans hslots.nextSerial) (hslots'.vramLocals.trans hslots.vramLocals)
              hsessions hnext hmanaged fun _ _ => hvrams
        rcases book_cases w sid t.session env id bo with he | he | ⟨hlocal, he⟩
        · rw [he] at h
          dsimp only at h
          rw [if_neg Bool.false_ne_true, Session.scheduleRequest_eq (r := freeRequest id 0) (by rintro ⟨⟩)] at h
          obtain ⟨c, hc, h⟩ := bind_ok.mp h
          obtain rfl := Except.ok.inj hc
          obtain rfl := pure_ok.mp h
          exact ⟨_, .inl (hfreed w rfl rfl (fun _ => rfl) hfresh.vram)⟩
        · rw [he] at h
          dsimp only at h
          rw [if_neg Bool.false_ne_true, Session.scheduleRequest_eq (r := freeRequest id 0) (by rintro ⟨⟩)] at h
          obtain ⟨c, hc, h⟩ := bind_ok.mp h
          obtain rfl := Except.ok.inj hc
          obtain rfl := pure_ok.mp h
          exact ⟨_, .inl (hfreed _ rfl rfl (managedBo_addVram_dissolved hfresh rfl)
            (vrams_addVram hsid hfresh.vram))⟩
        · rw [he] at h
          dsimp only at h
          rw [if_pos rfl] at h
          obtain rfl := pure_ok.mp h
          have hlocals : t.session.vramLocals = s.vramLocals := hslots.vramLocals
          refine ⟨_, .inr ⟨bo.serial, w.nextVram, ?_, ?_, ?_,
            effect_map hfresh hserial hbuffers hslots.nextSerial (by rw [hlocals])⟩⟩
          · simp [World.books, hnone]
          · rw [hcap]
            simp [Session.lookupVramCap, hlocal]
          · simp [World.books, World.managedBo, hfresh.vrams_nextVram]

-- ---------------------------------------------------------------------------
-- Effects in the sight of others
-- ---------------------------------------------------------------------------

/-- What `sid` does leaves the other sessions and their books alone. -/
structure Frame (sid : Nat) (w w' : World) : Prop where
  sessions : ∀ j, j ≠ sid → w'.sessions j = w.sessions j
  nextSession : w'.nextSession = w.nextSession
  managedBo : ∀ j, j ≠ sid → w'.managedBo j = w.managedBo j
  vrams : sid < w.nextSession → (∀ g v, w.vrams g = some v → g < w.nextVram ∧ v.owner < w.nextSession) →
    ∀ g v, w'.vrams g = some v → g < w'.nextVram ∧ v.owner < w.nextSession

theorem Frame.refl (sid : Nat) (w : World) : Frame sid w w :=
  ⟨fun _ _ => rfl, rfl, fun _ _ => rfl, fun _ h => h⟩

theorem Frame.trans (h : Frame sid w w') (h' : Frame sid w' w'') : Frame sid w w'' where
  sessions j hj := (h'.sessions j hj).trans (h.sessions j hj)
  nextSession := h'.nextSession.trans h.nextSession
  managedBo j hj := (h'.managedBo j hj).trans (h.managedBo j hj)
  vrams hsid hvrams := by
    have hnext := h.nextSession
    have hmid := h.vrams hsid hvrams
    rw [← hnext] at hsid hmid ⊢
    exact h'.vrams hsid hmid

theorem frame_put (sid : Nat) (w : World) (s : Session) : Frame sid w (w.put sid s) :=
  ⟨fun _ hj => Function.update_of_ne hj _ _, rfl, fun _ _ => rfl, fun _ h => h⟩

theorem Effect.frame (h : Effect w sid s k w' s') : Frame sid w w' where
  sessions j hj := by rw [h.sessions, Function.update_of_ne hj]
  nextSession := h.nextSession
  managedBo := h.others
  vrams := h.vrams

theorem Frame.bookkept (h : Frame sid w w') (hj : j ≠ sid) : Bookkept j w' ↔ Bookkept j w := by
  unfold Bookkept World.books
  rw [h.sessions j hj, h.managedBo j hj]

theorem Effect.bookkept (h : Effect w sid s k w' s') : Bookkept sid w' ↔ k.Kept := by
  have hsid : w'.sessions sid = some s' := by rw [h.sessions, Function.update_self]
  unfold Bookkept
  rw [hsid, ← h.books]
  simp

/-- The numbers stay in use whatever becomes of session `sid`. -/
theorem Frame.registered (h : Frame sid w w') (hw : Registered w) (hsid : sid < w.nextSession)
    (hself : ∀ t, w'.sessions sid = some t → Serials t) : Registered w' where
  session j t ht := by
    rw [h.nextSession]
    by_cases hj : j = sid
    · exact hj ▸ hsid
    · exact hw.session j t (h.sessions j hj ▸ ht)
  vram := h.nextSession ▸ h.vrams hsid hw.vram
  serials j t ht := by
    by_cases hj : j = sid
    · exact hself t (hj ▸ ht)
    · exact hw.serials j t (h.sessions j hj ▸ ht)

theorem Effect.registered (h : Effect w sid s k w' s') (hw : Registered w) (hs : w.sessions sid = some s) :
    Registered w' := by
  refine h.frame.registered hw (hw.session sid s hs) fun t ht => ?_
  rw [h.sessions, Function.update_self] at ht
  exact Option.some.inj ht ▸ h.serials (hw.serials sid s hs)

-- ---------------------------------------------------------------------------
-- Construction and destruction
-- ---------------------------------------------------------------------------

theorem freeBuffers_frame (h : freeBuffers sid env w ids = .ok w') : Frame sid w w' := by
  induction ids generalizing w with
  | nil =>
    obtain rfl := Except.ok.inj h
    exact .refl sid w
  | cons id ids ih =>
    unfold freeBuffers at h
    split at h
    · obtain rfl := Except.ok.inj h
      exact .refl sid w
    · rename_i s _
      have herased := frame_put sid w { s with vramLocals := s.vramLocals.erase id }
      split at h
      · exact herased.trans (ih h)
      · obtain ⟨a, ha, h⟩ := bind_ok.mp h
        rcases unmapGpu_effect ha with ⟨hresult, -, -⟩ | ⟨s', g, n, hresult, -, -, heffect⟩
        · rw [hresult, if_neg (by decide)] at h
          exact herased.trans (ih h)
        · rw [hresult, if_pos rfl] at h
          exact heffect.frame.trans (ih h)

theorem destruct_frame (h : destruct w sid s env = .ok w') : Frame sid w w' ∧ w'.sessions sid = none := by
  unfold destruct at h
  obtain ⟨t, ht, h⟩ := bind_ok.mp h
  obtain ⟨u, hu, h⟩ := bind_ok.mp h
  obtain rfl := pure_ok.mp h
  have hframe := (frame_put sid w t).trans (freeBuffers_frame hu)
  refine ⟨hframe.trans ⟨fun j hj => Function.update_of_ne hj _ _, rfl, fun j hj => ?_, fun _ hvrams g v hv => ?_⟩,
    Function.update_self _ _ _⟩
  · funext g
    cases hg : u.vrams g with
    | none => simp [World.managedBo, hg]
    | some v =>
      by_cases hlost : v.owner = sid ∧ v.state = .managed
      · simp [World.managedBo, hg, hlost.1, hlost.2, hj.symm]
      · simp [World.managedBo, hg, hlost]
  · obtain ⟨v', hv', rfl⟩ := Option.map_eq_some_iff.mp hv
    have := hvrams g v' hv'
    split <;> exact this

/-- A new session has no buffers. -/
theorem construct_ok (h : construct w envs = .ok (s, finished)) :
    s.buffers = ∅ ∧ s.vramLocals = ∅ := by
  unfold construct at h
  obtain ⟨c, hc, h⟩ := bind_ok.mp h
  obtain ⟨a, ha, h⟩ := bind_ok.mp h
  obtain ⟨b, hb, h⟩ := bind_ok.mp h
  obtain ⟨rfl, -⟩ := Prod.mk.inj (pure_ok.mp h)
  have hc := Session.scheduleRequest_slotsOnly (by rintro ⟨⟩) (by rintro ⟨⟩) hc
  have ha := Session.scheduleRequest_slotsOnly (by rintro ⟨⟩) (by rintro ⟨⟩) ha
  have hb := Session.scheduleRequest_slotsOnly (by rintro ⟨⟩) (by rintro ⟨⟩) hb
  exact ⟨hb.buffers.trans (ha.buffers.trans hc.buffers),
    hb.vramLocals.trans (ha.vramLocals.trans hc.vramLocals)⟩

-- ---------------------------------------------------------------------------
-- Runs
-- ---------------------------------------------------------------------------

/-- The call forgets no capability for a buffer of the session. Where it gives up a
`Gpu_vram` of the session, it does so under the id of a buffer, and with nothing pending. -/
def ReleasesWhole (sid : Nat) (w : World) : Event → Prop
  | .call j c _ => j = sid → w.crashed = false → ∀ s, w.sessions sid = some s → match c with
    | .unmapCpu id => s.buffers.lookup id = none
    | .unmapGpu id => ∀ g n, s.lookupVramCap id = some g → w.managedBo sid g = some n →
        s.pending.valid = false ∧ (s.buffers.lookup id).isSome
    | _ => True
  | _ => True

theorem registered_init : Registered {} where
  session _ _ h := by cases h
  vram _ _ h := by cases h
  serials _ _ h := by cases h

/-- What a call makes of the books of its session. -/
theorem perform_effect (hw : Registered w) (hs : w.sessions sid = some s) (hcrashed : w.crashed = false)
    (h : perform w sid s env c = .ok a) : ∃ s' k, Effect w sid s k a.world s' ∧
      ((w.books sid s).Kept → (k.Kept ↔ ReleasesWhole sid w (.call sid c env))) := by
  have htrivial : ∀ {s'}, Effect w sid s (w.books sid s) a.world s' →
      ReleasesWhole sid w (.call sid c env) → ∃ s' k, Effect w sid s k a.world s' ∧
        ((w.books sid s).Kept → (k.Kept ↔ ReleasesWhole sid w (.call sid c env))) :=
    fun heffect hwhole => ⟨_, _, heffect, fun hkept => iff_of_true hkept hwhole⟩
  cases c with
  | execute id =>
    obtain ⟨s', heffect⟩ := execute_effect h
    exact htrivial heffect fun _ _ _ _ => trivial
  | complete seqno =>
    obtain ⟨s', heffect⟩ := complete_effect hs h
    exact htrivial heffect fun _ _ _ _ => trivial
  | setTilingGpu id mode =>
    obtain ⟨s', heffect⟩ := setTilingGpu_effect hs h
    exact htrivial heffect fun _ _ _ _ => trivial
  | exportVram id =>
    obtain ⟨s', heffect⟩ := exportVram_effect hs h
    exact htrivial heffect fun _ _ _ _ => trivial
  | importVram cap id =>
    obtain ⟨s', heffect | ⟨hcap, heffect⟩⟩ := importVram_effect hs h
    · exact htrivial heffect fun _ _ _ _ => trivial
    · exact ⟨s', _, heffect, fun hkept => iff_of_true (hkept.importCap hcap cap) fun _ _ _ _ => trivial⟩
  | mapGpu id size va =>
    obtain ⟨s', heffect | ⟨n, g, hid, hcap, hg, heffect⟩⟩ := mapGpu_effect hs hw.toFresh h
    · exact htrivial heffect fun _ _ _ _ => trivial
    · exact ⟨s', _, heffect, fun hkept => iff_of_true (hkept.map hid hcap hg) fun _ _ _ _ => trivial⟩
  | unmapCpu id =>
    obtain ⟨s', heffect⟩ := unmapCpu_effect hs h
    refine ⟨s', _, heffect, fun hkept => hkept.drop_iff.trans ?_⟩
    have hserial : (w.books sid s).serial id = none ↔ s.buffers.lookup id = none := by
      simp [World.books]
    simp [ReleasesWhole, hs, hcrashed, hserial]
  | unmapGpu id =>
    obtain ⟨b, hb, hab⟩ : ∃ b, unmapGpu w sid s env id = .ok b ∧ b.world = a.world := by
      cases hu : unmapGpu w sid s env id with
      | error f => simp [perform, hu, Except.map] at h
      | ok b =>
        simp only [perform, hu, Except.map, Except.ok.injEq] at h
        exact ⟨b, rfl, by rw [← h]⟩
    rw [← hab] at htrivial ⊢
    rcases unmapGpu_effect hb with ⟨-, hworld, hno⟩ | ⟨s', g, n, -, hcap, hmanaged, heffect⟩
    · rw [hworld] at htrivial ⊢
      refine htrivial (effect_same hs) fun _ _ t ht g n hcap hmanaged => ?_
      obtain rfl := Option.some.inj (hs.symm.trans ht)
      exact absurd hmanaged (hno g n hcap)
    · refine ⟨s', _, heffect, fun hkept =>
        (hkept.release_iff (hw.serials sid s hs).distinct hcap hmanaged).trans ?_⟩
      have hserial : ((w.books sid s).serial id).isSome ↔ (s.buffers.lookup id).isSome := by
        simp [World.books]
      rw [hserial]
      constructor
      · rintro ⟨hpending, hid⟩ _ _ t ht g' n' _ _
        obtain rfl := Option.some.inj (hs.symm.trans ht)
        exact ⟨by simpa using hpending, hid⟩
      · intro hwhole
        obtain ⟨hpending, hid⟩ := hwhole rfl hcrashed s hs g n hcap hmanaged
        exact ⟨by simpa using hpending, hid⟩

theorem unmapCpu_no_fault : unmapCpu w sid s env id ≠ .error f := by
  intro h
  unfold unmapCpu at h
  split at h
  · cases h
  · split at h
    · rename_i handle _ _
      rw [Session.scheduleRequest_eq (r := closeRequest id handle) (by rintro ⟨⟩)] at h
      cases h
    · cases h

/-- A `Gpu_vram` at the entrypoint is found. -/
theorem unmapGpu_no_fault (hcap : s.lookupVramCap id = some g) (hmanaged : w.managedBo sid g = some n) :
    unmapGpu w sid s env id ≠ .error f := by
  intro h
  obtain ⟨vl, hvl, hcap⟩ := Option.bind_eq_some_iff.mp hcap
  obtain ⟨v, hv, -, hstate, -⟩ := managedBo_eq_some.mp hmanaged
  have happly : w.apply (some g) = .ok v := apply_ok.mpr ⟨g, rfl, hv, hstate⟩
  unfold unmapGpu at h
  simp only [hvl, hcap, happly] at h
  change (if v.owner ≠ sid then _ else _) = _ at h
  split at h
  · cases h
  · rw [Session.scheduleRequest_eq (r := freeRequest id (vl.exportName.getD 0)) (by rintro ⟨⟩)] at h
    cases h

theorem releasesWhole_of_fault (hs : w.sessions sid = some s) (h : perform w sid s env c = .error f) :
    ReleasesWhole sid w (.call sid c env) := by
  intro _ _ t ht
  obtain rfl := Option.some.inj (hs.symm.trans ht)
  cases c with
  | unmapCpu id => exact absurd h unmapCpu_no_fault
  | unmapGpu id =>
    intro g n hcap hmanaged
    cases hu : unmapGpu w sid s env id with
    | error f' => exact absurd hu (unmapGpu_no_fault hcap hmanaged)
    | ok b => simp [perform, hu, Except.map] at h
  | _ => trivial

theorem step_crashed (hcrashed : w.crashed = true) (e : Event) : gpu.next w e = w := by
  simp [gpu, System.next, World.step, hcrashed]

/-- A new session has no buffers, and finds no `Gpu_vram` of its own. -/
theorem registered_openSession (hw : Registered w) (h : construct w envs = .ok (t, finished)) :
    Registered ({ w with nextSession := w.nextSession + 1 }.put w.nextSession t) ∧
      ∀ sid, Bookkept sid w →
        Bookkept sid ({ w with nextSession := w.nextSession + 1 }.put w.nextSession t) := by
  obtain ⟨hbuffers, hlocals⟩ := construct_ok h
  have hserials : Serials t := by
    constructor <;> simp [hbuffers]
  have hcases : ∀ j u, ({ w with nextSession := w.nextSession + 1 }.put w.nextSession t).sessions j = some u →
      j = w.nextSession ∧ u = t ∨ j ≠ w.nextSession ∧ w.sessions j = some u := by
    intro j u hu
    by_cases hj : j = w.nextSession
    · subst hj
      exact .inl ⟨rfl, by simpa [World.put] using hu.symm⟩
    · exact .inr ⟨hj, by simpa [World.put, hj] using hu⟩
  refine ⟨⟨⟨fun j u hu => ?_, fun g v hv => ?_⟩, fun j u hu => ?_⟩, fun sid hkept u hu => ?_⟩
  · rcases hcases j u hu with ⟨rfl, -⟩ | ⟨-, hu⟩
    · exact Nat.lt_succ_self _
    · exact (hw.session j u hu).trans (Nat.lt_succ_self _)
  · exact (hw.vram g v hv).imp_right fun hlt => hlt.trans (Nat.lt_succ_self _)
  · rcases hcases j u hu with ⟨-, rfl⟩ | ⟨-, hu⟩
    · exact hserials
    · exact hw.serials j u hu
  · rcases hcases sid u hu with ⟨rfl, rfl⟩ | ⟨-, hu⟩
    · refine ⟨fun id n hn => ?_, fun g n hn => ?_⟩
      · simp [World.books, hbuffers] at hn
      · obtain ⟨v, hv, howner, -⟩ := managedBo_eq_some.mp hn
        exact absurd (hw.vram g v hv).2 (by simp [howner])
    · exact hkept u hu

/-- Each step keeps the numbers in order, and the books of session `sid` exactly if the
session releases nothing by halves. -/
theorem Registered.next (hw : Registered w) (sid : Nat) (e : Event) : Registered (gpu.next w e) ∧
    (Bookkept sid w → (Bookkept sid (gpu.next w e) ↔ ReleasesWhole sid w e)) := by
  by_cases hcrashed : w.crashed = true
  · rw [step_crashed hcrashed]
    refine ⟨hw, fun hkept => iff_of_true hkept ?_⟩
    cases e with
    | call j c env => exact fun _ hno => absurd (hcrashed.symm.trans hno) (by decide)
    | _ => trivial
  · have hcrashed : w.crashed = false := by simpa using hcrashed
    have hcrash : ∀ f, Registered (w.crash f).1 := fun f => ⟨⟨hw.session, hw.vram⟩, hw.serials⟩
    have hnext : gpu.next w e = (w.step e).1 := rfl
    rw [hnext]
    unfold World.step
    rw [if_neg (by simp [hcrashed])]
    cases e with
    | openSession envs =>
      dsimp only
      split
      · exact ⟨hcrash _, fun hkept => iff_of_true hkept trivial⟩
      · rename_i t finished h
        obtain ⟨hregistered, hkeeps⟩ := registered_openSession hw h
        exact ⟨hregistered, fun hkept => iff_of_true (hkeeps sid hkept) trivial⟩
    | closeSession j env =>
      dsimp only
      split
      · exact ⟨hw, fun hkept => iff_of_true hkept trivial⟩
      · rename_i s hs
        split
        · exact ⟨hcrash _, fun hkept => iff_of_true hkept trivial⟩
        · rename_i w' h
          obtain ⟨hframe, hnone⟩ := destruct_frame h
          refine ⟨hframe.registered hw (hw.session j s hs) (by simp [hnone]), fun hkept =>
            iff_of_true ?_ trivial⟩
          by_cases hj : sid = j
          · intro t ht
            rw [hj, hnone] at ht
            cases ht
          · exact (hframe.bookkept hj).mpr hkept
    | call j c env =>
      dsimp only
      split
      · rename_i hnone
        refine ⟨hw, fun hkept => iff_of_true hkept ?_⟩
        intro hj _ t ht
        rw [← hj, hnone] at ht
        cases ht
      · rename_i s hs
        split
        · rename_i f h
          refine ⟨hcrash f, fun hkept => iff_of_true hkept ?_⟩
          intro hj
          subst hj
          exact releasesWhole_of_fault hs h rfl
        · rename_i a h
          obtain ⟨s', k, heffect, hkeeps⟩ := perform_effect hw hs hcrashed h
          refine ⟨heffect.registered hw hs, fun hkept => ?_⟩
          by_cases hj : sid = j
          · subst hj
            exact heffect.bookkept.trans (hkeeps (hkept s hs))
          · exact iff_of_true ((heffect.frame.bookkept hj).mpr hkept) fun hj' => absurd hj'.symm hj
    | wake j err =>
      dsimp only
      split
      · exact ⟨hw, fun hkept => iff_of_true hkept trivial⟩
      · rename_i s hs
        have hslots : s.SlotsOnly (s.wake err).1 := by
          unfold Session.wake
          split
          · exact Session.slotsOnly_slots s _ _
          · exact Session.slotsOnly_slots s s.pending s.completed
        have heffect := effect_slotsOnly w j hslots
        refine ⟨heffect.registered hw hs, fun hkept => iff_of_true ?_ trivial⟩
        by_cases hj : sid = j
        · subst hj
          exact heffect.bookkept.mpr (hkept s hs)
        · exact (heffect.frame.bookkept hj).mpr hkept

/-- The books of a session are kept throughout a run exactly if the session releases
nothing by halves. -/
theorem bookkept_iff (sid : Nat) (es : List Event) :
    (∀ pre, pre <+: es → Bookkept sid (gpu.run {} pre)) ↔ gpu.Along (ReleasesWhole sid) {} es :=
  System.throughout_iff_along (fun _ e hw _ _ => (hw.next sid e).1)
    (fun _ e hw hkept => (hw.next sid e).2 hkept) registered_init fun _ h => by cases h

/-- A kernel that grants everything, but lets waits block. -/
def granting : Env where
  ctxCreate := some 1
  syncobjCreate := some 5
  gemCreate _ _ := some 7
  gemInfo _ := some 0
  gemFlink _ := some 3
  gemOpen _ := some (9, 1)
  newVram := true
  newVramLocal := true

/-- A buffer is unmapped while a wait of the session blocks. -/
def unmapWhileWaiting : List Event :=
  [.openSession fun _ => granting, .call 0 (.mapGpu 4 1 0) granting, .call 0 (.complete 5) granting,
    .call 0 (.unmapGpu 4) granting]

theorem buffer_left_over : ¬ Bookkept 0 (gpu.run {} unmapWhileWaiting) := by
  have hleft : ((gpu.run {} unmapWhileWaiting).sessions 0).map (fun s =>
      ((s.buffers.lookup 4).map (·.serial), s.lookupVramCap 4)) = some (some 0, none) := by decide
  intro h
  obtain ⟨s, hs, he⟩ := Option.map_eq_some_iff.mp hleft
  obtain ⟨hserial, hcap⟩ := Prod.mk.inj he
  obtain ⟨g, hg, -⟩ := (h s hs).buffer 4 0 hserial
  exact Option.some_ne_none g (hg.symm.trans hcap)

end Allwinner.Gpu
