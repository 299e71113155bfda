import Allwinner.Gpu.Waits

/-!
# Buffers shared between sessions

A session that imports a buffer keeps nothing but its capability, while the owner may
dissolve the `Gpu_vram` behind it at any time. The driver takes care of capabilities
that are invalid, but not of those that name nothing any more: a session accesses a
vanished buffer as soon as it looks up one of these.
-/

namespace Allwinner.Gpu

open Library (System EachGiven)

variable {w w' : World} {sid id g : Nat} {s s' : Session} {env : Env} {a : Outcome} {cap : Cap}

-- ---------------------------------------------------------------------------
-- What capabilities name
-- ---------------------------------------------------------------------------

/-- If the capability names a `Gpu_vram`, the entrypoint manages it. -/
def World.Live (w : World) (cap : Cap) : Prop :=
  ∀ g v, cap = some g → w.vrams g = some v → v.state = .managed

/-- The session finds the `Gpu_vram` behind `id`, and its buffer object if it needs that. -/
def World.Backed (w : World) (s : Session) (id : VramId) (access : Bool) : Prop :=
  ∀ g v, s.lookupVramCap id = some g → w.vrams g = some v →
    v.state = .managed ∧ (access = true → w.hasBo v = true)

/-- Each `Vram_local` has the capability of some `Gpu_vram`. -/
def World.Known (w : World) (s : Session) : Prop :=
  ∀ id vl, s.vramLocals.lookup id = some vl → ∃ g v, vl.vramCap = some g ∧ w.vrams g = some v

def World.Grows (w w' : World) : Prop := ∀ g v, w.vrams g = some v → ∃ v', w'.vrams g = some v'

theorem World.Grows.refl (w : World) : w.Grows w := fun _ v h => ⟨v, h⟩

theorem World.Grows.trans (h : World.Grows w w') (h' : World.Grows w' w'') : World.Grows w w'' := by
  intro g v hv
  obtain ⟨v', hv'⟩ := h g v hv
  exact h' g v' hv'

theorem grows_setVram (w : World) (g : Nat) (v : GpuVram) : w.Grows (w.setVram g v) := by
  intro g' u hu
  by_cases hg : g' = g
  · exact ⟨v, by simp [World.setVram, hg]⟩
  · exact ⟨u, by simpa [World.setVram, hg] using hu⟩

theorem World.Known.grows (h : World.Known w s) (hgrows : w.Grows w') : w'.Known s := by
  intro id vl hvl
  obtain ⟨g, v, hcap, hv⟩ := h id vl hvl
  obtain ⟨v', hv'⟩ := hgrows g v hv
  exact ⟨g, v', hcap, hv'⟩

theorem World.Known.congr (h : World.Known w s) (hlocals : s'.vramLocals = s.vramLocals) : w.Known s' :=
  fun id vl hvl => h id vl (hlocals ▸ hvl)

theorem World.Known.erase (h : World.Known w s) (hlocals : s'.vramLocals = s.vramLocals.erase id) :
    w.Known s' := by
  intro j vl hvl
  rw [hlocals] at hvl
  by_cases hj : j = id
  · rw [hj, AList.lookup_erase] at hvl
    cases hvl
  · rw [AList.lookup_erase_ne hj] at hvl
    exact h j vl hvl

theorem World.Known.insert (h : World.Known w s) {vl : VramLocal}
    (hlocals : s'.vramLocals = s.vramLocals.insert id vl) (hcap : vl.vramCap = some g)
    (hv : w.vrams g = some v) : w.Known s' := by
  intro j u hu
  rw [hlocals] at hu
  by_cases hj : j = id
  · rw [hj, AList.lookup_insert] at hu
    obtain rfl := Option.some.inj hu
    exact ⟨g, v, hcap, hv⟩
  · rw [AList.lookup_insert_ne hj] at hu
    exact h j u hu

theorem lookupVramCap_of_lookup {vl : VramLocal} (hvl : s.vramLocals.lookup id = some vl) :
    s.lookupVramCap id = vl.vramCap := by
  rw [Session.lookupVramCap, hvl, Option.bind_some]

-- ---------------------------------------------------------------------------
-- Faults of a call
-- ---------------------------------------------------------------------------

theorem bind_error {x : Except Fault α} {f : α → Except Fault β} :
    x >>= f = .error e ↔ x = .error e ∨ ∃ a, x = .ok a ∧ f a = .error e := by
  cases x <;> simp [bind, Except.bind]

theorem apply_vanished : w.apply cap = .error .vanished ↔ ¬ w.Live cap := by
  unfold World.apply World.Live
  cases cap with
  | none => simp
  | some g =>
    cases hv : w.vrams g with
    | none => simp [hv]
    | some v => by_cases hstate : v.state = .managed <;> simp [hv, hstate]

theorem withBo_vanished : w.withBo s id access = .error .vanished ↔ ¬ w.Backed s id access := by
  unfold World.withBo World.Backed
  cases hvl : s.vramLocals.lookup id with
  | none => simp [Session.lookupVramCap, hvl]
  | some vl =>
    rw [lookupVramCap_of_lookup hvl]
    dsimp only
    rw [bind_error, apply_vanished]
    constructor
    · rintro (hlive | ⟨v, hv, h⟩) hbacked
      · exact hlive fun g v hcap hv => (hbacked g v hcap hv).1
      · obtain ⟨g, hcap, hv, -⟩ := apply_ok.mp hv
        split at h
        · rename_i hno
          obtain ⟨haccess, hnone⟩ : access = true ∧ w.hasBo v = false := by simpa using hno
          exact absurd ((hbacked g v hcap hv).2 haccess) (by simp [hnone])
        · cases h
    · intro hno
      by_contra hall
      obtain ⟨hlive, hbo⟩ := not_or.mp hall
      refine hno fun g v hcap hv => ?_
      have hstate : v.state = .managed := not_not.mp hlive g v hcap hv
      refine ⟨hstate, fun haccess => ?_⟩
      by_contra hnone
      refine hbo ⟨v, apply_ok.mpr ⟨g, hcap, hv, hstate⟩, ?_⟩
      rw [if_pos (by simpa [haccess] using hnone)]

theorem withBo_known (hknown : w.Known s) (h : w.withBo s id access = .error f) : f = .vanished := by
  unfold World.withBo at h
  cases hvl : s.vramLocals.lookup id with
  | none => simp [hvl] at h
  | some vl =>
    obtain ⟨g, v, hcap, hv⟩ := hknown id vl hvl
    rw [hvl] at h
    rcases bind_error.mp h with happly | ⟨u, -, h⟩
    · simp only [World.apply, hcap, hv] at happly
      split at happly
      · cases happly
      · exact (Except.error.inj happly).symm
    · split at h
      · exact (Except.error.inj h).symm
      · cases h

/-- The translation of a submission goes on after this buffer. -/
def Session.Imports (s : Session) (bo : SubmitBo) : Prop :=
  ∃ id vl, bo.handle = some id ∧ s.vramLocals.lookup id = some vl ∧ vl.importHandle.isSome

theorem not_imports_of_null {bo : SubmitBo} (h : bo.handle = none) : ¬ s.Imports bo := by
  rintro ⟨id, vl, hid, -⟩
  rw [h] at hid
  cases hid

/-- The buffers of a submission are backed as far as they are translated. -/
def World.BacksAll (w : World) (s : Session) (bos : List SubmitBo) : Prop :=
  ∀ pre bo post id, bos = pre ++ bo :: post → (∀ p ∈ pre, s.Imports p) → bo.handle = some id →
    w.Backed s id bo.read

theorem backsAll_cons {bo : SubmitBo} {bos : List SubmitBo} : w.BacksAll s (bo :: bos) ↔
    (∀ id, bo.handle = some id → w.Backed s id bo.read) ∧ (s.Imports bo → w.BacksAll s bos) := by
  constructor
  · intro h
    refine ⟨fun id => h [] bo bos id rfl (by simp), fun hbo pre b post id he hpre => ?_⟩
    refine h (bo :: pre) b post id (by rw [he]; rfl) fun p hp => ?_
    rcases List.mem_cons.mp hp with rfl | hp
    · exact hbo
    · exact hpre p hp
  · rintro ⟨hfirst, hrest⟩ pre b post id he hpre
    cases pre with
    | nil =>
      obtain ⟨rfl, -⟩ := List.cons.inj he
      exact hfirst id
    | cons p pre =>
      obtain ⟨rfl, he'⟩ := List.cons.inj he
      exact hrest (hpre bo (by simp)) pre b post id he' fun q hq => hpre q (by simp [hq])

theorem translateBos_vanished (hknown : w.Known s) (bos : List SubmitBo) :
    Session.translateBos w s bos = .error .vanished ↔ ¬ w.BacksAll s bos := by
  induction bos with
  | nil => simp [Session.translateBos, World.BacksAll]
  | cons bo bos ih =>
    rw [backsAll_cons, not_and_or, Classical.not_imp, ← ih, Session.translateBos]
    cases hid : bo.handle with
    | none => simp [not_imports_of_null hid]
    | some id =>
      have hfirst : (∀ j, some id = some j → w.Backed s j bo.read) ↔ w.Backed s id bo.read := by simp
      rw [hfirst, ← withBo_vanished]
      dsimp only
      rw [bind_error]
      cases hb : w.withBo s id bo.read with
      | error f =>
        obtain rfl := withBo_known hknown hb
        exact iff_of_true (.inl rfl) (.inl rfl)
      | ok called =>
        refine or_congr_right ?_
        have himports : s.Imports bo ↔
            ((s.vramLocals.lookup id).bind (·.importHandle)).isSome := by
          unfold Session.Imports
          cases hvl : s.vramLocals.lookup id <;> simp [hid, hvl]
        cases hhandle : (s.vramLocals.lookup id).bind (·.importHandle) with
        | none => simp [himports, hhandle, pure, Except.pure]
        | some handle => simp [himports, hhandle]

/-- What an execution looks up. -/
def World.BacksExec (w : World) (s : Session) (env : Env) (id : VramId) : Prop :=
  s.pending.valid = false → (s.buffers.lookup id).isSome → (s.vramLocals.lookup id).isSome →
    w.Backed s id true ∧ w.BacksAll s env.submit.bos

theorem withBo_ok (h : w.withBo s id access = .ok called) : called = (s.vramLocals.lookup id).isSome := by
  unfold World.withBo at h
  cases hvl : s.vramLocals.lookup id with
  | none =>
    rw [hvl] at h
    exact (Except.ok.inj h).symm
  | some vl =>
    rw [hvl] at h
    obtain ⟨v, -, h⟩ := bind_ok.mp h
    split at h
    · cases h
    · exact (Except.ok.inj h).symm

theorem dispatchExec_vanished (hknown : w.Known s) (r : Request) :
    Session.dispatchExec w s env r = .error .vanished ↔ (s.vramLocals.lookup r.operation.id).isSome ∧
      ¬ (w.Backed s r.operation.id true ∧ w.BacksAll s env.submit.bos) := by
  rw [not_and_or, ← withBo_vanished, ← translateBos_vanished hknown]
  unfold Session.dispatchExec
  rw [bind_error]
  cases hb : w.withBo s r.operation.id true with
  | error f =>
    obtain rfl := withBo_known hknown hb
    refine iff_of_true (.inl rfl) ⟨?_, .inl rfl⟩
    by_contra hnone
    have hvl : s.vramLocals.lookup r.operation.id = none := by simpa using hnone
    simp [World.withBo, hvl] at hb
  | ok called =>
    rw [← withBo_ok hb]
    cases called with
    | false => simp [pure, Except.pure]
    | true =>
      simp only [Except.ok.injEq, exists_eq_left', Bool.not_true, Bool.false_eq_true, if_false, true_and,
        reduceCtorEq, false_or]
      rw [bind_error]
      refine or_iff_left ?_
      rintro ⟨err, -, h⟩
      split at h
      · cases h
      · split at h
        · cases h
        · split at h <;> cases h

theorem execute_vanished (hknown : w.Known s) :
    execute w sid s env id = .error .vanished ↔ ¬ w.BacksExec s env id := by
  unfold execute World.BacksExec
  rw [bind_error]
  refine (or_iff_left ?_).trans ?_
  · rintro ⟨b, -, h⟩
    split at h <;> cases h
  · rw [Session.scheduleRequest_exec_error rfl, dispatchExec_vanished (s := s.start _) hknown]
    simp only [Classical.not_imp]
    exact Iff.rfl

theorem unmapGpu_vanished : unmapGpu w sid s env id = .error .vanished ↔ ¬ w.Live (s.lookupVramCap id) := by
  unfold unmapGpu
  cases hvl : s.vramLocals.lookup id with
  | none => simp [Session.lookupVramCap, hvl, World.Live, pure, Except.pure]
  | some vl =>
    rw [lookupVramCap_of_lookup hvl]
    dsimp only
    cases hcap : vl.vramCap with
    | none => simp [World.Live, pure, Except.pure]
    | some g =>
      dsimp only
      rw [bind_error, ← apply_vanished]
      refine or_iff_left ?_
      rintro ⟨v, -, h⟩
      split at h
      · cases h
      · rw [Session.scheduleRequest_eq (r := freeRequest id (vl.exportName.getD 0)) (by rintro ⟨⟩)] at h
        cases h

/-- What an export looks up. -/
def World.BacksExport (w : World) (s : Session) (env : Env) (id : VramId) : Prop :=
  ∀ vl, s.vramLocals.lookup id = some vl →
    (vl.exportName.isSome ∨ s.pending.valid = false ∧
      ∃ b, s.buffers.lookup id = some b ∧ (env.gemFlink b.handle).isSome) →
    w.Live vl.vramCap

/-- What an import looks up. -/
def World.BacksImport (w : World) (s : Session) (env : Env) (cap : Cap) (id : VramId) : Prop :=
  (∀ vl, s.vramLocals.lookup id = some vl → vl.importHandle = none) →
    ((s.vramLocals.lookup id).isSome ∨ env.newVramLocal = true) → w.Live cap

theorem openImport_vanished {vl : VramLocal} : openImport w sid s env cap id vl = .error .vanished ↔
    vl.importHandle = none ∧ ¬ w.Live cap := by
  unfold openImport
  cases hhandle : vl.importHandle with
  | some handle => simp [pure, Except.pure]
  | none =>
    simp only [Option.isSome_none, Bool.false_eq_true, if_false, true_and]
    rw [bind_error, ← apply_vanished]
    refine or_iff_left ?_
    rintro ⟨v, -, h⟩
    rw [Session.scheduleRequest_eq (r := openRequest (v.importName.getD 0)) (by rintro ⟨⟩)] at h
    obtain ⟨b, hb, h⟩ := (bind_error.mp h).resolve_left (by rintro ⟨⟩)
    split at h <;> cases h

theorem importVram_vanished : importVram w sid s env cap id = .error .vanished ↔
    ¬ w.BacksImport s env cap id := by
  unfold importVram World.BacksImport
  cases hvl : s.vramLocals.lookup id with
  | some vl => simp [openImport_vanished]
  | none =>
    dsimp only
    cases hnew : env.newVramLocal with
    | false => simp
    | true =>
      simp only [Bool.not_true, Bool.false_eq_true, if_false]
      simp [openImport_vanished]

theorem scheduled_flink (s : Session) (env : Env) (id : VramId) :
    (s.scheduled env (flinkRequest id)).result.isSome ↔ s.pending.valid = false ∧
      ∃ b, s.buffers.lookup id = some b ∧ (env.gemFlink b.handle).isSome := by
  unfold Session.scheduled
  cases s.pending.valid with
  | true => simp
  | false =>
    have hmanaged : s.managedId (flinkRequest id) = true := rfl
    rw [hmanaged]
    unfold Session.dispatchOther
    dsimp only [Request.withSuccess, flinkRequest]
    cases hb : s.buffers.lookup id with
    | none => simp [hb, Session.start]
    | some b => cases hname : env.gemFlink b.handle <;> simp [hb, hname, Session.start, Request.succeeded]

theorem lookupExport_ok (w : World) (s : Session) (env : Env) (id : VramId) (vl : VramLocal) :
    ∃ t name finished, lookupExport w s env id vl = .ok (t, name, finished) ∧
      (name.isSome ↔ vl.exportName.isSome ∨ s.pending.valid = false ∧
        ∃ b, s.buffers.lookup id = some b ∧ (env.gemFlink b.handle).isSome) := by
  rw [← scheduled_flink]
  unfold lookupExport
  rw [Session.scheduleRequest_eq (r := flinkRequest id) (by rintro ⟨⟩)]
  cases hname : vl.exportName with
  | some name => exact ⟨s, some name, [], rfl, by simp⟩
  | none =>
    obtain ⟨t, result, finished⟩ := s.scheduled env (flinkRequest id)
    cases result with
    | none => exact ⟨t, none, finished, rfl, by simp⟩
    | some r => exact ⟨_, some r.operation.name, finished, rfl, by simp⟩

theorem exportVram_vanished : exportVram w sid s env id = .error .vanished ↔
    ¬ w.BacksExport s env id := by
  unfold exportVram World.BacksExport
  cases hvl : s.vramLocals.lookup id with
  | none => simp [pure, Except.pure]
  | some vl =>
    obtain ⟨t, name, finished, hlookup, hname⟩ := lookupExport_ok w s env id vl
    simp only [Option.some.injEq, forall_eq', ← hname, Classical.not_imp]
    rw [hlookup]
    dsimp only [bind, Except.bind]
    cases name with
    | none => simp [pure, Except.pure]
    | some n =>
      rw [← apply_vanished]
      cases w.apply vl.vramCap <;> simp [pure, Except.pure]

theorem mapGpu_no_fault : mapGpu w sid s env id size va ≠ .error f := by
  intro h
  unfold mapGpu at h
  rw [Session.scheduleRequest_eq (r := allocRequest id size (va % 2 ^ 32)) (by rintro ⟨⟩)] at h
  split at h
  · cases h
  · split at h
    · cases h
    · obtain ⟨b, -, h⟩ := (bind_error.mp h).resolve_left (by rintro ⟨⟩)
      have hrest : ∀ (w' : World) (t : Session) (ret : Bool), (do
          if ret then return ⟨w'.put sid t, .bool true, b.finished⟩
          let c ← t.scheduleRequest w' env (freeRequest id 0)
          return ⟨w'.put sid c.session, .bool false, b.finished ++ c.finished⟩ :
            Except Fault Outcome) ≠ .error f := by
        intro w' t ret h
        rw [Session.scheduleRequest_eq (r := freeRequest id 0) (by rintro ⟨⟩)] at h
        cases ret <;> cases h
      split at h
      · cases h
      · exact hrest _ _ _ h

/-- What a call looks up is there. -/
def World.BacksCall (w : World) (s : Session) (env : Env) : Call → Prop
  | .execute id => w.BacksExec s env id
  | .unmapGpu id => w.Live (s.lookupVramCap id)
  | .exportVram id => w.BacksExport s env id
  | .importVram cap id => w.BacksImport s env cap id
  | _ => True

theorem perform_vanished (hknown : w.Known s) (c : Call) :
    perform w sid s env c = .error .vanished ↔ ¬ w.BacksCall s env c := by
  cases c with
  | execute id => exact execute_vanished hknown
  | complete seqno => exact iff_of_false complete_no_fault (not_not.mpr trivial)
  | setTilingGpu id mode => exact iff_of_false setTilingGpu_no_fault (not_not.mpr trivial)
  | mapGpu id size va => exact iff_of_false mapGpu_no_fault (not_not.mpr trivial)
  | unmapGpu id =>
    refine Iff.trans ?_ (@unmapGpu_vanished w sid id s env)
    cases hu : unmapGpu w sid s env id <;> simp [perform, hu, Except.map]
  | unmapCpu id => exact iff_of_false unmapCpu_no_fault (not_not.mpr trivial)
  | exportVram id => exact exportVram_vanished
  | importVram cap id => exact importVram_vanished

-- ---------------------------------------------------------------------------
-- Capabilities stay known
-- ---------------------------------------------------------------------------

/-- What a call makes of its session, in the sight of capabilities. -/
def Keeps (w : World) (sid : Nat) (s : Session) (w' : World) : Prop :=
  ∃ s', w'.sessions = Function.update w.sessions sid (some s') ∧ w.Grows w' ∧
    (w.Known s → w'.Known s')

theorem keeps_same (hs : w.sessions sid = some s) : Keeps w sid s w :=
  ⟨s, by rw [← hs, Function.update_eq_self], .refl w, id⟩

theorem keeps_put (w : World) (sid : Nat) (h : s'.vramLocals = s.vramLocals) :
    Keeps w sid s (w.put sid s') :=
  ⟨s', rfl, .refl w, fun hknown => hknown.congr h⟩

theorem keeps_erase (w : World) (sid : Nat) (h : s'.vramLocals = s.vramLocals.erase id) :
    Keeps w sid s (w.put sid s') :=
  ⟨s', rfl, .refl w, fun hknown => hknown.erase h⟩

theorem execute_keeps (h : execute w sid s env id = .ok a) : Keeps w sid s a.world := by
  unfold execute at h
  obtain ⟨b, hb, h⟩ := bind_ok.mp h
  have hlocals := Session.scheduleRequest_vramLocals hb
  split at h <;> obtain rfl := pure_ok.mp h <;> exact keeps_put w sid hlocals

theorem complete_keeps (hs : w.sessions sid = some s) (h : complete w sid s env seqno = .ok a) :
    Keeps w sid s a.world := by
  unfold complete at h
  split at h
  · obtain rfl := pure_ok.mp h
    exact keeps_same hs
  · split at h
    · obtain rfl := pure_ok.mp h
      exact keeps_same hs
    · split at h
      · obtain rfl := pure_ok.mp h
        exact keeps_put w sid rfl
      · obtain ⟨b, hb, h⟩ := bind_ok.mp h
        have hlocals := Session.scheduleRequest_vramLocals hb
        split at h <;> obtain rfl := pure_ok.mp h <;> exact keeps_put w sid hlocals

theorem setTilingGpu_keeps (hs : w.sessions sid = some s) (h : setTilingGpu w sid s env id mode = .ok a) :
    Keeps w sid s a.world := by
  unfold setTilingGpu at h
  split at h
  · obtain rfl := pure_ok.mp h
    exact keeps_same hs
  · split at h
    · obtain rfl := pure_ok.mp h
      exact keeps_put w sid rfl
    · obtain ⟨b, hb, h⟩ := bind_ok.mp h
      have hlocals := Session.scheduleRequest_vramLocals hb
      split at h <;> obtain rfl := pure_ok.mp h <;> exact keeps_put w sid hlocals

theorem unmapCpu_keeps (hs : w.sessions sid = some s) (h : unmapCpu w sid s env id = .ok a) :
    Keeps w sid s a.world := by
  unfold unmapCpu at h
  split at h
  · obtain rfl := pure_ok.mp h
    exact keeps_same hs
  · split at h
    · obtain ⟨b, hb, h⟩ := bind_ok.mp h
      have hlocals := Session.scheduleRequest_vramLocals hb
      obtain rfl := pure_ok.mp h
      exact keeps_erase w sid (by rw [hlocals])
    · obtain rfl := pure_ok.mp h
      exact keeps_erase w sid rfl

theorem unmapGpu_keeps (hs : w.sessions sid = some s) (h : unmapGpu w sid s env id = .ok a) :
    Keeps w sid s a.world := by
  unfold unmapGpu at h
  split at h
  · obtain rfl := pure_ok.mp h
    exact keeps_same hs
  · split at h
    · obtain rfl := pure_ok.mp h
      exact keeps_same hs
    · rename_i g _
      obtain ⟨v, -, h⟩ := bind_ok.mp h
      split at h
      · obtain rfl := pure_ok.mp h
        exact keeps_same hs
      · obtain ⟨b, hb, h⟩ := bind_ok.mp h
        have hlocals := Session.scheduleRequest_vramLocals hb
        obtain rfl := pure_ok.mp h
        exact ⟨b.session, rfl, grows_setVram w g _, fun hknown => (hknown.erase hlocals).grows (grows_setVram w g _)⟩

theorem openImport_keeps {vl : VramLocal} (h : openImport w sid s env cap id vl = .ok a)
    (hvl : w.Known s → ∃ g v, vl.vramCap = some g ∧ w.vrams g = some v) : Keeps w sid s a.world := by
  unfold openImport at h
  split at h
  · obtain rfl := pure_ok.mp h
    exact keeps_put w sid rfl
  · obtain ⟨u, -, h⟩ := bind_ok.mp h
    obtain ⟨b, hb, h⟩ := bind_ok.mp h
    have hlocals := Session.scheduleRequest_vramLocals hb
    split at h
    · obtain rfl := pure_ok.mp h
      exact keeps_put w sid hlocals
    · obtain rfl := pure_ok.mp h
      refine ⟨_, rfl, .refl w, fun hknown => ?_⟩
      obtain ⟨g, v, hcap, hv⟩ := hvl hknown
      exact (hknown.congr hlocals).insert rfl hcap hv

/-- A capability that is not known stops the import. -/
theorem openImport_known {vl : VramLocal} (h : openImport w sid s env cap id vl = .ok a)
    (hhandle : vl.importHandle = none) : ∃ g v, cap = some g ∧ w.vrams g = some v := by
  unfold openImport at h
  rw [hhandle] at h
  obtain ⟨v, hv, -⟩ := bind_ok.mp h
  obtain ⟨g, hcap, hv, -⟩ := apply_ok.mp hv
  exact ⟨g, v, hcap, hv⟩

theorem importVram_keeps (hs : w.sessions sid = some s) (h : importVram w sid s env cap id = .ok a) :
    Keeps w sid s a.world := by
  unfold importVram at h
  split at h
  · rename_i vl hvl
    exact openImport_keeps h fun hknown => hknown id vl hvl
  · split at h
    · obtain rfl := Except.ok.inj h
      exact keeps_same hs
    · obtain ⟨g, v, hcap, hv⟩ := openImport_known h rfl
      obtain ⟨s', hsessions, hgrows, hknows⟩ := openImport_keeps h fun _ => ⟨g, v, hcap, hv⟩
      exact ⟨s', hsessions, hgrows, fun hknown => hknows (hknown.insert rfl hcap hv)⟩

theorem exportVram_keeps (hs : w.sessions sid = some s) (h : exportVram w sid s env id = .ok a) :
    Keeps w sid s a.world := by
  unfold exportVram at h
  split at h
  · obtain rfl := pure_ok.mp h
    exact keeps_same hs
  · rename_i vl hvl
    obtain ⟨⟨t, name, finished⟩, hb, h⟩ := bind_ok.mp h
    have hknown : w.Known s → w.Known t := by
      intro hknown
      unfold lookupExport at hb
      split at hb
      · obtain ⟨rfl, -⟩ := Prod.mk.inj (pure_ok.mp hb)
        exact hknown
      · obtain ⟨b, hb', hb⟩ := bind_ok.mp hb
        have hlocals := Session.scheduleRequest_vramLocals hb'
        split at hb
        · obtain ⟨rfl, -⟩ := Prod.mk.inj (pure_ok.mp hb)
          exact hknown.congr hlocals
        · obtain ⟨rfl, -⟩ := Prod.mk.inj (pure_ok.mp hb)
          obtain ⟨g, v, hcap, hv⟩ := hknown id vl hvl
          exact (hknown.congr hlocals).insert rfl hcap hv
    dsimp only at h
    split at h
    · obtain rfl := pure_ok.mp h
      exact ⟨t, rfl, .refl w, hknown⟩
    · obtain ⟨v, -, h⟩ := bind_ok.mp h
      obtain rfl := pure_ok.mp h
      cases vl.vramCap with
      | none => exact ⟨t, rfl, .refl w, hknown⟩
      | some g => exact ⟨t, rfl, grows_setVram w g _, fun h => (hknown h).grows (grows_setVram w g _)⟩

theorem grows_addVram (v : GpuVram) : w.Grows (w.addVram v) :=
  fun g u hu => grows_setVram { w with nextVram := w.nextVram + 1 } w.nextVram v g u hu

theorem book_keeps (w : World) (sid : Nat) (s : Session) (env : Env) (id : VramId) (b : BufferObject) :
    (book w sid s env id b).1.sessions = w.sessions ∧ w.Grows (book w sid s env id b).1 ∧
      (w.Known s → (book w sid s env id b).1.Known (book w sid s env id b).2.1) := by
  rcases book_cases w sid s env id b with he | he | ⟨-, he⟩ <;> rw [he]
  · exact ⟨rfl, .refl w, fun hknown => hknown⟩
  · exact ⟨rfl, grows_addVram _, fun hknown => hknown.grows (grows_addVram _)⟩
  · refine ⟨rfl, grows_addVram _, fun hknown => ?_⟩
    exact (hknown.grows (grows_addVram _)).insert (g := w.nextVram) rfl rfl (Function.update_self _ _ _)

theorem mapGpu_keeps (hs : w.sessions sid = some s) (h : mapGpu w sid s env id size va = .ok a) :
    Keeps w sid s a.world := by
  unfold mapGpu at h
  split at h
  · obtain rfl := pure_ok.mp h
    exact keeps_same hs
  · split at h
    · obtain rfl := pure_ok.mp h
      exact keeps_same hs
    · obtain ⟨b, hb, h⟩ := bind_ok.mp h
      have hlocals := Session.scheduleRequest_vramLocals hb
      split at h
      · obtain rfl := pure_ok.mp h
        exact keeps_put w sid hlocals
      · -- the session with the buffer booked if there is one
        have hrest : ∀ (w' : World) (t : Session) (ret : Bool), w'.sessions = w.sessions → w.Grows w' →
            (w.Known s → w'.Known t) → (do
              if ret then return ⟨w'.put sid t, .bool true, b.finished⟩
              let c ← t.scheduleRequest w' env (freeRequest id 0)
              return ⟨w'.put sid c.session, .bool false, b.finished ++ c.finished⟩ :
                Except Fault Outcome) = .ok a → Keeps w sid s a.world := by
          intro w' t ret hsessions hgrows hknown h
          split at h
          · obtain rfl := pure_ok.mp h
            exact ⟨t, by simp [World.put, hsessions], hgrows, hknown⟩
          · obtain ⟨c, hc, h⟩ := bind_ok.mp h
            obtain rfl := pure_ok.mp h
            exact ⟨c.session, by simp [World.put, hsessions], hgrows,
              fun hs => (hknown hs).congr (Session.scheduleRequest_vramLocals hc)⟩
        have hbooked : w.Known s → w.Known b.session := fun hknown => hknown.congr hlocals
        cases hlookup : b.session.buffers.lookup id with
        | none =>
          rw [hlookup] at h
          exact hrest w b.session false rfl (.refl w) hbooked h
        | some bo =>
          rw [hlookup] at h
          obtain ⟨hsessions, hgrows, hknows⟩ := book_keeps w sid b.session env id bo
          exact hrest _ _ _ hsessions hgrows (fun hknown => hknows (hbooked hknown)) h

theorem perform_keeps (hs : w.sessions sid = some s) (h : perform w sid s env c = .ok a) :
    Keeps w sid s a.world := by
  cases c with
  | execute id => exact execute_keeps h
  | complete seqno => exact complete_keeps hs h
  | setTilingGpu id mode => exact setTilingGpu_keeps hs h
  | mapGpu id size va => exact mapGpu_keeps hs h
  | unmapGpu id =>
    cases hu : unmapGpu w sid s env id with
    | error f => simp [perform, hu, Except.map] at h
    | ok b =>
      obtain rfl : { b with result := .done } = a := by simpa [perform, hu, Except.map] using h
      have hkeeps := unmapGpu_keeps hs hu
      exact hkeeps
  | unmapCpu id => exact unmapCpu_keeps hs h
  | exportVram id => exact exportVram_keeps hs h
  | importVram cap id => exact importVram_keeps hs h

-- ---------------------------------------------------------------------------
-- Destruction
-- ---------------------------------------------------------------------------

/-- The `Gpu_vram` that the destructor finds behind `id`. -/
def Session.unmaps (s : Session) (id : VramId) : Cap :=
  (s.vramLocals.lookup id).bind fun vl => if vl.importHandle.isSome then none else vl.vramCap

/-- What the destructor finds behind `ids` is there, and behind no two of them the same
`Gpu_vram` of the session. -/
structure World.Drains (w : World) (sid : Nat) (s : Session) (ids : List VramId) : Prop where
  live : ∀ id ∈ ids, w.Live (s.unmaps id)
  once : ∀ id ∈ ids, ∀ j ∈ ids, ∀ g v, s.unmaps id = some g → s.unmaps j = some g →
    w.vrams g = some v → v.owner = sid → id = j

theorem drains_nil : w.Drains sid s [] := ⟨by simp, by simp⟩

theorem drains_cons (hid : id ∉ ids) : w.Drains sid s (id :: ids) ↔ w.Live (s.unmaps id) ∧
    (∀ g v, s.unmaps id = some g → w.vrams g = some v → v.owner = sid → ∀ j ∈ ids, s.unmaps j ≠ some g) ∧
    w.Drains sid s ids := by
  constructor
  · intro h
    refine ⟨h.live id (by simp), fun g v hg hv howner j hj hg' => ?_,
      fun j hj => h.live j (by simp [hj]), fun j hj k hk => h.once j (by simp [hj]) k (by simp [hk])⟩
    obtain rfl := h.once id (by simp) j (by simp [hj]) g v hg hg' hv howner
    exact hid hj
  · rintro ⟨hlive, hfirst, hrest⟩
    refine ⟨fun j hj => ?_, fun j hj k hk g v hg hg' hv howner => ?_⟩
    · rcases List.mem_cons.mp hj with rfl | hj
      · exact hlive
      · exact hrest.live j hj
    · rcases List.mem_cons.mp hj with rfl | hj' <;> rcases List.mem_cons.mp hk with rfl | hk'
      · rfl
      · exact absurd hg' (hfirst g v hg hv howner k hk')
      · exact absurd hg (hfirst g v hg' hv howner j hj')
      · exact hrest.once j hj' k hk' g v hg hg' hv howner

theorem drains_congr (hvrams : w'.vrams = w.vrams) (hunmaps : ∀ j ∈ ids, s'.unmaps j = s.unmaps j) :
    w'.Drains sid s' ids ↔ w.Drains sid s ids := by
  constructor
  · rintro ⟨hlive, honce⟩
    refine ⟨fun j hj g v hg hv => ?_, fun j hj k hk g v hg hg' hv => ?_⟩
    · exact hlive j hj g v ((hunmaps j hj).trans hg) (hvrams ▸ hv)
    · exact honce j hj k hk g v ((hunmaps j hj).trans hg) ((hunmaps k hk).trans hg') (hvrams ▸ hv)
  · rintro ⟨hlive, honce⟩
    refine ⟨fun j hj g v hg hv => ?_, fun j hj k hk g v hg hg' hv => ?_⟩
    · exact hlive j hj g v ((hunmaps j hj).symm.trans hg) (hvrams ▸ hv)
    · exact honce j hj k hk g v ((hunmaps j hj).symm.trans hg) ((hunmaps k hk).symm.trans hg') (hvrams ▸ hv)

/-- Once `g` is dissolved, the destructor must not find it again. -/
theorem drains_dissolved (hstate : v.state = .dissolved) :
    (w.setVram g v).Drains sid s ids ↔ (∀ j ∈ ids, s.unmaps j ≠ some g) ∧ w.Drains sid s ids := by
  have hother : ∀ g', g' ≠ g → (w.setVram g v).vrams g' = w.vrams g' :=
    fun g' hg' => Function.update_of_ne hg' _ _
  constructor
  · rintro ⟨hlive, honce⟩
    have hne : ∀ j ∈ ids, s.unmaps j ≠ some g := by
      intro j hj hg
      have hmanaged := hlive j hj g v hg (Function.update_self _ _ _)
      rw [hstate] at hmanaged
      cases hmanaged
    refine ⟨hne, fun j hj g' u hg' hu => ?_, fun j hj k hk g' u hg' hk' hu => ?_⟩
    all_goals have hg : g' ≠ g := fun he => hne j hj (he ▸ hg')
    · exact hlive j hj g' u hg' ((hother g' hg).trans hu)
    · exact honce j hj k hk g' u hg' hk' ((hother g' hg).trans hu)
  · rintro ⟨hne, hlive, honce⟩
    refine ⟨fun j hj g' u hg' hu => ?_, fun j hj k hk g' u hg' hk' hu => ?_⟩
    all_goals have hg : g' ≠ g := fun he => hne j hj (he ▸ hg')
    · exact hlive j hj g' u hg' ((hother g' hg).symm.trans hu)
    · exact honce j hj k hk g' u hg' hk' ((hother g' hg).symm.trans hu)

theorem unmaps_erase (hlocals : s'.vramLocals = s.vramLocals.erase id) {ids : List VramId}
    (hid : id ∉ ids) : ∀ j ∈ ids, s'.unmaps j = s.unmaps j := by
  intro j hj
  have hne : j ≠ id := fun he => hid (he ▸ hj)
  rw [Session.unmaps, Session.unmaps, hlocals, AList.lookup_erase_ne hne]

/-- The destructor dissolves the `Gpu_vram` behind `id` if it is one of the session, and
destroys the `Vram_local` in any case. -/
def Drained (w : World) (sid : Nat) (s : Session) (id : VramId) (w' : World) : Prop :=
  ∃ t, w'.sessions sid = some t ∧ t.vramLocals = s.vramLocals.erase id ∧
    ((w'.vrams = w.vrams ∧ ∀ g v, s.unmaps id = some g → w.vrams g = some v → v.owner ≠ sid) ∨
      ∃ g v, s.unmaps id = some g ∧ w.vrams g = some v ∧ v.owner = sid ∧
        w'.vrams = (w.setVram g { v with state := .dissolved }).vrams)

theorem drained_erased (h : ∀ g v, s.unmaps id = some g → w.vrams g = some v → v.owner ≠ sid) :
    Drained w sid s id (w.put sid { s with vramLocals := s.vramLocals.erase id }) :=
  ⟨_, Function.update_self _ _ _, rfl, .inl ⟨rfl, h⟩⟩

theorem freeBuffers_cons (hs : w.sessions sid = some s) (hknown : w.Known s) (env : Env) (id : VramId)
    (ids : List VramId) :
    (¬ w.Live (s.unmaps id) ∧ freeBuffers sid env w (id :: ids) = .error .vanished) ∨
    (w.Live (s.unmaps id) ∧ ∃ w', Drained w sid s id w' ∧
      freeBuffers sid env w (id :: ids) = freeBuffers sid env w' ids) := by
  rw [freeBuffers, hs]
  dsimp only
  cases hvl : s.vramLocals.lookup id with
  | none =>
    have hunmaps : s.unmaps id = none := by simp [Session.unmaps, hvl]
    have hunmap : unmapGpu w sid s env id = .ok ⟨w, .bool false, []⟩ := by simp [unmapGpu, hvl, pure, Except.pure]
    rw [hunmap, hunmaps]
    exact .inr ⟨by rintro _ _ ⟨⟩, _, drained_erased (by simp [hunmaps]), rfl⟩
  | some vl =>
    cases hhandle : vl.importHandle with
    | some handle =>
      have hunmaps : s.unmaps id = none := by simp [Session.unmaps, hvl, hhandle]
      rw [hunmaps]
      exact .inr ⟨by rintro _ _ ⟨⟩, _, drained_erased (by simp [hunmaps]), by simp [hhandle]⟩
    | none =>
      obtain ⟨g, v, hcap, hv⟩ := hknown id vl hvl
      have hunmaps : s.unmaps id = some g := by simp [Session.unmaps, hvl, hhandle, hcap]
      have hlive : w.Live (s.unmaps id) ↔ v.state = .managed := by
        refine ⟨fun h => h g v hunmaps hv, fun hstate g' v' hg' hv' => ?_⟩
        obtain rfl := Option.some.inj (hunmaps.symm.trans hg')
        exact Option.some.inj (hv.symm.trans hv') ▸ hstate
      rw [hlive, Option.bind_some, hhandle, if_neg (by simp)]
      by_cases hstate : v.state = .managed
      · refine .inr ⟨hstate, ?_⟩
        have happly : w.apply (some g) = .ok v := apply_ok.mpr ⟨g, rfl, hv, hstate⟩
        by_cases howner : v.owner = sid
        · subst howner
          obtain ⟨b, hb⟩ : ∃ b, Session.scheduleRequest (w.setVram g { v with state := .dissolved })
              { s with vramLocals := s.vramLocals.erase id } env (freeRequest id (vl.exportName.getD 0)) = .ok b :=
            ⟨_, Session.scheduleRequest_eq (r := freeRequest id (vl.exportName.getD 0)) (by rintro ⟨⟩)⟩
          have hunmap : unmapGpu w v.owner s env id =
              .ok ⟨(w.setVram g { v with state := .dissolved }).put v.owner b.session, .bool true, b.finished⟩ := by
            simp [unmapGpu, hvl, hcap, happly, hb, pure, Except.pure, bind, Except.bind]
          rw [hunmap]
          refine ⟨(w.setVram g { v with state := .dissolved }).put v.owner b.session,
            ⟨b.session, Function.update_self _ _ _, ?_, ?_⟩, rfl⟩
          · exact Session.scheduleRequest_vramLocals hb
          · exact .inr ⟨g, v, hunmaps, hv, rfl, rfl⟩
        · have hunmap : unmapGpu w sid s env id = .ok ⟨w, .bool false, []⟩ := by
            simp [unmapGpu, hvl, hcap, happly, howner, pure, Except.pure, bind, Except.bind]
          rw [hunmap]
          refine ⟨_, drained_erased fun g' v' hg' hv' => ?_, rfl⟩
          obtain rfl := Option.some.inj (hunmaps.symm.trans hg')
          obtain rfl := Option.some.inj (hv.symm.trans hv')
          exact howner
      · have hunmap : unmapGpu w sid s env id = .error .vanished :=
          unmapGpu_vanished.mpr (by rwa [lookupVramCap_of_lookup hvl, hcap, ← hunmaps, hlive])
        rw [hunmap]
        exact .inl ⟨hstate, rfl⟩

theorem Drained.known (h : Drained w sid s id w') (hknown : w.Known s) :
    w.Grows w' ∧ ∃ t, w'.sessions sid = some t ∧ w'.Known t := by
  obtain ⟨t, ht, hlocals, hvrams⟩ := h
  have hgrows : w.Grows w' := by
    intro g v hv
    rcases hvrams with ⟨he, -⟩ | ⟨g', v', -, -, -, he⟩
    · exact ⟨v, he ▸ hv⟩
    · rw [he]
      exact grows_setVram w g' _ g v hv
  exact ⟨hgrows, t, ht, (hknown.erase hlocals).grows hgrows⟩

theorem freeBuffers_vanished (hs : w.sessions sid = some s) (hknown : w.Known s) (hids : ids.Nodup) :
    freeBuffers sid env w ids = .error .vanished ↔ ¬ w.Drains sid s ids := by
  induction ids generalizing w s with
  | nil => exact iff_of_false (by rintro ⟨⟩) (not_not.mpr drains_nil)
  | cons id ids ih =>
    obtain ⟨hid, hids⟩ := List.nodup_cons.mp hids
    rw [drains_cons hid]
    rcases freeBuffers_cons hs hknown env id ids with ⟨hgone, he⟩ | ⟨hlive, w', hdrained, he⟩
    · exact iff_of_true he fun h => hgone h.1
    · obtain ⟨-, t, ht, hknown'⟩ := hdrained.known hknown
      rw [he, ih ht hknown' hids]
      obtain ⟨t', ht', hlocals, hvrams⟩ := hdrained
      obtain rfl := Option.some.inj (ht.symm.trans ht')
      have hunmaps := unmaps_erase hlocals hid
      refine not_congr ⟨fun h => ⟨hlive, ?_⟩, ?_⟩
      · rcases hvrams with ⟨hsame, hother⟩ | ⟨g, v, hg, hv, howner, hsame⟩
        · exact ⟨fun g v hg hv howner => absurd howner (hother g v hg hv), (drains_congr hsame hunmaps).mp h⟩
        · obtain ⟨hne, h⟩ := (drains_dissolved rfl).mp ((drains_congr hsame hunmaps).mp h)
          refine ⟨fun g' _ hg' _ _ => ?_, h⟩
          obtain rfl := Option.some.inj (hg.symm.trans hg')
          exact hne
      · rintro ⟨-, hfirst, h⟩
        rcases hvrams with ⟨hsame, -⟩ | ⟨g, v, hg, hv, howner, hsame⟩
        · exact (drains_congr hsame hunmaps).mpr h
        · exact (drains_congr hsame hunmaps).mpr ((drains_dissolved rfl).mpr ⟨hfirst g v hg hv howner, h⟩)

theorem freeBuffers_grows (hs : w.sessions sid = some s) (hknown : w.Known s)
    (h : freeBuffers sid env w ids = .ok w') : w.Grows w' := by
  induction ids generalizing w s with
  | nil =>
    obtain rfl := Except.ok.inj h
    exact .refl w
  | cons id ids ih =>
    rcases freeBuffers_cons hs hknown env id ids with ⟨-, he⟩ | ⟨-, u, hdrained, he⟩
    · rw [he] at h
      cases h
    · obtain ⟨hgrows, t, ht, hknown'⟩ := hdrained.known hknown
      rw [he] at h
      exact hgrows.trans (ih ht hknown' h)

theorem closeImported_total (w : World) (env : Env) (s : Session)
    (entries : List (Sigma fun _ : VramId => VramLocal)) :
    ∃ t, closeImported w env s entries = .ok t ∧ t.vramLocals = s.vramLocals := by
  induction entries generalizing s with
  | nil => exact ⟨s, rfl, rfl⟩
  | cons e entries ih =>
    unfold closeImported
    split
    · rename_i handle _ _
      obtain ⟨b, hb⟩ : ∃ b, s.scheduleRequest w env (closeRequest e.1 handle) = .ok b :=
        ⟨_, Session.scheduleRequest_eq (r := closeRequest e.1 handle) (by rintro ⟨⟩)⟩
      obtain ⟨t, ht, hlocals⟩ := ih b.session
      refine ⟨t, ?_, hlocals.trans (Session.scheduleRequest_vramLocals hb)⟩
      rw [hb]
      exact ht
    · exact ih s

/-- The destructor up to its loop. -/
theorem destruct_loop (w : World) (sid : Nat) (s : Session) (env : Env) :
    ∃ t, t.vramLocals = s.vramLocals ∧ destruct w sid s env =
      (freeBuffers sid env (w.put sid t) s.vramLocals.keys).map fun u => { u with
        sessions := Function.update u.sessions sid none
        vrams g := (u.vrams g).map fun v =>
          if v.owner = sid ∧ v.state = .managed then { v with state := .lost } else v } := by
  obtain ⟨t, ht, hlocals⟩ := closeImported_total w env s s.vramLocals.entries
  refine ⟨t, hlocals, ?_⟩
  unfold destruct
  rw [ht]
  cases h : freeBuffers sid env (w.put sid t) s.vramLocals.keys <;>
    simp [h, hlocals, bind, Except.bind, pure, Except.pure, Except.map]

theorem destruct_vanished (hknown : w.Known s) :
    destruct w sid s env = .error .vanished ↔ ¬ w.Drains sid s s.vramLocals.keys := by
  obtain ⟨t, hlocals, he⟩ := destruct_loop w sid s env
  have hunmaps : ∀ j ∈ s.vramLocals.keys, t.unmaps j = s.unmaps j := by
    intro j _
    rw [Session.unmaps, Session.unmaps, hlocals]
  have hloop : freeBuffers sid env (w.put sid t) s.vramLocals.keys = .error .vanished ↔
      ¬ (w.put sid t).Drains sid t s.vramLocals.keys :=
    freeBuffers_vanished (Function.update_self _ _ _) (hknown.congr hlocals) s.vramLocals.keys_nodup
  have hdrains : (w.put sid t).Drains sid t s.vramLocals.keys ↔ w.Drains sid s s.vramLocals.keys :=
    drains_congr rfl hunmaps
  rw [he, ← hdrains, ← hloop]
  cases freeBuffers sid env (w.put sid t) s.vramLocals.keys <;> simp [Except.map]

theorem destruct_grows (hknown : w.Known s) (h : destruct w sid s env = .ok w') : w.Grows w' := by
  obtain ⟨t, hlocals, he⟩ := destruct_loop w sid s env
  rw [he] at h
  cases hloop : freeBuffers sid env (w.put sid t) s.vramLocals.keys with
  | error f => simp [hloop, Except.map] at h
  | ok u =>
    have hgrows : (w.put sid t).Grows u :=
      freeBuffers_grows (Function.update_self _ _ _) (hknown.congr hlocals) hloop
    rw [hloop] at h
    obtain rfl := Except.ok.inj h
    intro g v hv
    obtain ⟨v', hv'⟩ := hgrows g v hv
    exact ⟨_, Option.map_eq_some_iff.mpr ⟨v', hv', rfl⟩⟩

theorem construct_total (w : World) (envs : Fin 3 → Env) : ∃ s finished, construct w envs = .ok (s, finished) := by
  obtain ⟨c, hc⟩ : ∃ c, Session.scheduleRequest w {} (envs 0) (.create .ctxCreate) = .ok c :=
    ⟨_, Session.scheduleRequest_eq (by rintro ⟨⟩)⟩
  have hcreate : ∀ (s : Session) env, ∃ a, s.scheduleRequest w env (.create .syncobjCreate) = .ok a :=
    fun s env => ⟨_, Session.scheduleRequest_eq (by rintro ⟨⟩)⟩
  obtain ⟨a, ha⟩ := hcreate { c.session with ctxId := (c.result.map fun r => r.operation.ctxId).getD 0 } (envs 1)
  obtain ⟨b, hb⟩ := hcreate a.session (envs 2)
  exact ⟨_, _, by simp [construct, hc, ha, hb, bind, Except.bind, pure, Except.pure]; exact ⟨rfl, rfl⟩⟩

-- ---------------------------------------------------------------------------
-- Runs
-- ---------------------------------------------------------------------------

/-- What the step looks up is there. -/
def Backs (w : World) : Event → Prop
  | .call sid c env => w.crashed = false → ∀ s, w.sessions sid = some s → w.BacksCall s env c
  | .closeSession sid _ => w.crashed = false → ∀ s, w.sessions sid = some s →
      w.Drains sid s s.vramLocals.keys
  | _ => True

def AllKnown (w : World) : Prop := ∀ sid s, w.sessions sid = some s → w.Known s

theorem AllKnown.of_others (hw : AllKnown w) (hgrows : w.Grows w')
    (hother : ∀ j, j ≠ sid → w'.sessions j = w.sessions j)
    (hself : ∀ s, w'.sessions sid = some s → w'.Known s) : AllKnown w' := by
  intro j s hs
  by_cases hj : j = sid
  · exact hself s (hj ▸ hs)
  · exact (hw j s (hother j hj ▸ hs)).grows hgrows

theorem allKnown_next (hw : AllKnown w) (e : Event) : AllKnown (gpu.next w e) := by
  by_cases hcrashed : w.crashed = true
  · rw [step_crashed hcrashed]
    exact hw
  · have hnext : gpu.next w e = (w.step e).1 := rfl
    have hcrash : ∀ f, AllKnown (w.crash f).1 := fun _ => hw
    rw [hnext]
    unfold World.step
    rw [if_neg hcrashed]
    cases e with
    | openSession envs =>
      dsimp only
      split
      · exact hcrash _
      · rename_i t finished h
        refine hw.of_others (.refl w) (fun j hj => Function.update_of_ne hj _ _) fun u hu => ?_
        obtain rfl : t = u := by simpa [World.put] using hu
        intro id vl hvl
        rw [(construct_ok h).2] at hvl
        cases hvl
    | closeSession j env =>
      dsimp only
      split
      · exact hw
      · rename_i s hs
        split
        · exact hcrash _
        · rename_i w' h
          obtain ⟨hframe, hnone⟩ := destruct_frame h
          refine hw.of_others (destruct_grows (hw j s hs) h) hframe.sessions fun u hu => ?_
          rw [hnone] at hu
          cases hu
    | call j c env =>
      dsimp only
      split
      · exact hw
      · rename_i s hs
        split
        · exact hcrash _
        · rename_i a h
          obtain ⟨s', hsessions, hgrows, hknows⟩ := perform_keeps hs h
          have hother : ∀ i, i ≠ j → a.world.sessions i = w.sessions i := by
            intro i hi
            rw [hsessions, Function.update_of_ne hi]
          refine hw.of_others hgrows hother fun u hu => ?_
          obtain rfl : s' = u := by simpa [hsessions] using hu
          exact hknows (hw j s hs)
    | wake j err =>
      dsimp only
      split
      · exact hw
      · rename_i s hs
        refine hw.of_others (.refl w) (fun i hi => Function.update_of_ne hi _ _) fun u hu => ?_
        obtain rfl : (s.wake err).1 = u := by simpa [World.put] using hu
        refine (hw j s hs).congr ?_
        unfold Session.wake
        split <;> rfl

theorem vanished_step (hw : AllKnown w) (e : Event) :
    (∀ o ∈ gpu.obs w e, o ≠ .fault .vanished) ↔ Backs w e := by
  by_cases hcrashed : w.crashed = true
  · rw [obs_crashed hcrashed]
    refine iff_of_true (by simp) ?_
    cases e with
    | call j c env => exact fun hno => absurd (hcrashed.symm.trans hno) (by decide)
    | closeSession j env => exact fun hno => absurd (hcrashed.symm.trans hno) (by decide)
    | _ => trivial
  · have hcrashed' : w.crashed = false := by simpa using hcrashed
    have hobs : gpu.obs w e = (w.step e).2 := rfl
    have hcrash : ∀ f, (∀ o ∈ (w.crash f).2, o ≠ .fault .vanished) ↔ f ≠ .vanished := by simp [World.crash]
    -- a step that looks things up for session `j`
    have hself : ∀ {j s} {P : Session → Prop}, w.sessions j = some s →
        ((w.crashed = false → ∀ t, w.sessions j = some t → P t) ↔ P s) := by
      intro j s P hs
      refine ⟨fun h => h hcrashed' s hs, fun h _ t ht => ?_⟩
      obtain rfl := Option.some.inj (hs.symm.trans ht)
      exact h
    rw [hobs]
    unfold World.step
    rw [if_neg hcrashed]
    cases e with
    | openSession envs =>
      refine iff_of_true ?_ trivial
      dsimp only
      split
      · rename_i f h
        obtain ⟨t, finished, ht⟩ := construct_total w envs
        rw [ht] at h
        cases h
      · simp
    | closeSession j env =>
      dsimp only
      split
      · rename_i hnone
        refine iff_of_true (by simp) fun _ t ht => ?_
        rw [hnone] at ht
        cases ht
      · rename_i s hs
        refine Iff.trans ?_ (hself hs).symm
        have hfault : destruct w j s env = .error .vanished ↔ ¬ w.Drains j s s.vramLocals.keys :=
          destruct_vanished (hw j s hs)
        rw [← not_not (a := w.Drains j s s.vramLocals.keys), ← hfault]
        cases h : destruct w j s env with
        | error f => simp [hcrash]
        | ok w' => simp
    | call j c env =>
      dsimp only
      split
      · rename_i hnone
        refine iff_of_true (by simp) fun _ t ht => ?_
        rw [hnone] at ht
        cases ht
      · rename_i s hs
        refine Iff.trans ?_ (hself hs).symm
        have hfault : perform w j s env c = .error .vanished ↔ ¬ w.BacksCall s env c :=
          perform_vanished (hw j s hs) c
        rw [← not_not (a := w.BacksCall s env c), ← hfault]
        cases h : perform w j s env c with
        | error f => simp [hcrash]
        | ok a =>
          refine iff_of_true (fun o ho => ?_) (by simp)
          rcases List.mem_append.mp ho with ho | ho
          · obtain ⟨r, -, rfl⟩ := List.mem_map.mp ho
            rintro ⟨⟩
          · obtain rfl := List.mem_singleton.mp ho
            rintro ⟨⟩
    | wake j err =>
      refine iff_of_true ?_ trivial
      dsimp only
      split <;> simp

/-- No session accesses a vanished buffer exactly if whatever a step looks up is there. -/
theorem vanished_iff (es : List Event) :
    (∀ o ∈ gpu.log {} es, o ≠ .fault .vanished) ↔ gpu.Along Backs {} es :=
  System.log_forall_iff_along (fun _ e hw => allKnown_next hw e) (fun _ e hw => vanished_step hw e)
    fun _ _ h => by cases h

/-- Session 1 unmaps the buffer of session 0 that it imported, after the owner did so. -/
def unmapAfterOwner : List Event :=
  [.openSession fun _ => granting, .openSession fun _ => granting,
    .call 0 (.mapGpu 4 1 0) granting, .call 0 (.exportVram 4) granting,
    .call 1 (.importVram (some 0) 8) granting, .call 0 (.unmapGpu 4) granting,
    .call 1 (.unmapGpu 8) granting]

theorem unmap_of_vanished : ¬ ∀ o ∈ gpu.log {} unmapAfterOwner, o ≠ .fault .vanished := by
  have hfault : .fault .vanished ∈ gpu.log {} unmapAfterOwner := by decide
  exact fun h => h _ hfault rfl

end Allwinner.Gpu
