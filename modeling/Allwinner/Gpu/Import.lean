import Allwinner.Gpu.Calls

/-!
# Importing buffers

`import_vram` books a `Vram_local` for the capability and has the kernel open the buffer
by its global name. The booking comes first and stays when the kernel refuses, so a
later import under the same id finds an entry it did not make.
-/

namespace Allwinner.Gpu

-- ---------------------------------------------------------------------------
-- What an import should do
-- ---------------------------------------------------------------------------

/-- The kernel's side of `GEM_OPEN`: global names start at 1, and the handle it returns
refers to the buffer of that name. -/
structure Env.Opens (env : Env) (refers : (handle name : Nat) → Prop) : Prop where
  unnamed : env.gemOpen 0 = none
  opened : ∀ {name handle size}, env.gemOpen name = some (handle, size) → refers handle name

/-- The handle refers to the buffer behind the capability. -/
def World.HandleFor (w : World) (refers : (handle name : Nat) → Prop) (handle : Nat) (cap : Cap) : Prop :=
  ∃ v name, w.apply cap = .ok v ∧ v.importName = some name ∧ refers handle name

/-- What an import leaves for later ones: its result, the entries, and whether a request
is pending. -/
def Outcome.imported (sid : Nat) (a : Outcome) : Result × Option (IdSpace VramLocal × Bool) :=
  (a.result, (a.world.sessions sid).map fun s => (s.vramLocals, s.pending.valid))

/-- An import does the same in both sessions. -/
def ImportsAlike (s s' : Session) : Prop :=
  ∀ w sid env cap id, (importVram w sid s env cap id).map (Outcome.imported sid) =
    (importVram w sid s' env cap id).map (Outcome.imported sid)

/-- An import that led from session `s` to `s'`: if it throws it changes nothing, and if it
returns the entry is the one asked for. -/
structure AllOrNothing (w : World) (refers : (handle name : Nat) → Prop) (s s' : Session) (cap : Cap)
    (id : VramId) (result : Result) : Prop where
  throws : result ≠ .done → s'.vramLocals = s.vramLocals ∧ ImportsAlike s s'
  returns : result = .done → ∃ vl handle, s'.vramLocals.lookup id = some vl ∧ vl.vramCap = cap ∧
    vl.importHandle = some handle ∧ w.HandleFor refers handle cap

/-- The kernel gets to open the buffer, and does. -/
def Session.canOpen (s : Session) (env : Env) (v : GpuVram) : Bool :=
  !s.pending.valid && (env.gemOpen (v.importName.getD 0)).isSome

/-- A new entry is followed by its handle. An entry that is there already is for the same
capability unless nothing comes of the import, and its handle is for the same buffer. -/
def ImportReady (w : World) (s : Session) (env : Env) (refers : (handle name : Nat) → Prop) (cap : Cap)
    (id : VramId) : Prop :=
  match s.vramLocals.lookup id with
  | none => env.newVramLocal = true → ∀ v, w.apply cap = .ok v → s.canOpen env v = true
  | some vl =>
    match vl.importHandle with
    | none => ∀ v, w.apply cap = .ok v → s.canOpen env v = true → vl.vramCap = cap
    | some handle => vl.vramCap = cap ∧ w.HandleFor refers handle cap

-- ---------------------------------------------------------------------------
-- What it does
-- ---------------------------------------------------------------------------

section Laws

variable {w : World} {sid : Nat} {s s' : Session} {env : Env} {cap : Cap} {id : VramId}
  {vl : VramLocal} {a : Outcome} {refers : (handle name : Nat) → Prop}

/-- `import_vram` once there is an entry without handle and the capability is that of `v`. -/
def opening (s : Session) (env : Env) (id : VramId) (vl : VramLocal) (v : GpuVram) :
    Result × Option (IdSpace VramLocal × Bool) :=
  match env.gemOpen (v.importName.getD 0) with
  | none => (.invalidState, some (s.vramLocals, s.pending.valid))
  | some (handle, _) =>
    if s.pending.valid then (.invalidState, some (s.vramLocals, true))
    else (.done, some (s.vramLocals.insert id { vl with importHandle := some handle }, false))

theorem scheduled_open (s : Session) (env : Env) (name : Nat) :
    s.scheduled env (openRequest name) =
      if s.pending.valid then { session := s }
      else match env.gemOpen name with
        | none =>
          { session := (s.start (openRequest name)).finish (openRequest name), finished := [openRequest name] }
        | some (handle, size) =>
          let r := (openRequest name).succeeded
            { (openRequest name).operation with handle, size := size % 2 ^ 32 }
          { session := (s.start (openRequest name)).finish r, result := some r, finished := [r] } := by
  unfold Session.scheduled
  cases s.pending.valid with
  | true => rfl
  | false => cases hopen : env.gemOpen name <;>
      simp [Session.dispatchOther, Session.managedId, Request.withSuccess, Request.succeeded, openRequest,
        hopen]

theorem openImport_imported : (openImport w sid s env cap id vl).map (Outcome.imported sid) =
    if vl.importHandle.isSome then .ok (.done, some (s.vramLocals, s.pending.valid))
    else (w.apply cap).map (opening s env id vl) := by
  unfold openImport
  cases hhandle : vl.importHandle with
  | some handle => simp [Except.map, pure, Except.pure, Outcome.imported, World.put]
  | none =>
    cases hv : w.apply cap with
    | error f => rfl
    | ok v =>
      have hexec : (openRequest (v.importName.getD 0)).operation.type ≠ .exec := by simp [openRequest]
      simp only [Option.isSome_none, Bool.false_eq_true, if_false, Except.map, bind, Except.bind,
        Session.scheduleRequest_eq hexec, opening]
      rw [scheduled_open]
      cases hpending : s.pending.valid with
      | true =>
        cases hopen : env.gemOpen (v.importName.getD 0) <;>
          simp [pure, Except.pure, Outcome.imported, World.put, hpending]
      | false =>
        cases hopen : env.gemOpen (v.importName.getD 0) <;>
          simp [pure, Except.pure, Outcome.imported, World.put, Session.finish, Session.start,
            Request.valid, Request.succeeded]

theorem importVram_imported : (importVram w sid s env cap id).map (Outcome.imported sid) =
    match s.vramLocals.lookup id with
    | some vl =>
      if vl.importHandle.isSome then .ok (.done, some (s.vramLocals, s.pending.valid))
      else (w.apply cap).map (opening s env id vl)
    | none =>
      if env.newVramLocal then
        (w.apply cap).map
          (opening { s with vramLocals := s.vramLocals.insert id { vramCap := cap } } env id { vramCap := cap })
      else .ok (.outOfRam, (w.sessions sid).map fun s => (s.vramLocals, s.pending.valid)) := by
  unfold importVram
  cases s.vramLocals.lookup id with
  | some vl => exact openImport_imported
  | none =>
    cases env.newVramLocal with
    | false => rfl
    | true =>
      dsimp only
      rw [Bool.not_true, if_neg (by simp), openImport_imported]
      rfl

/-- Imports see the entries of a session and whether a request is pending. -/
theorem importsAlike (hlocals : s'.vramLocals = s.vramLocals)
    (hpending : s'.pending.valid = s.pending.valid) : ImportsAlike s s' := by
  have hopening : ∀ (entries : Option (IdSpace VramLocal)) env id vl v,
      opening { s' with vramLocals := entries.getD s'.vramLocals } env id vl v =
        opening { s with vramLocals := entries.getD s.vramLocals } env id vl v := by
    intro entries env id vl v
    simp [opening, hlocals, hpending]
  intro w sid env cap id
  rw [importVram_imported, importVram_imported, hlocals, hpending]
  cases s.vramLocals.lookup id with
  | some vl =>
    have hsame : opening s' env id vl = opening s env id vl := funext (hopening none env id vl)
    dsimp only
    rw [hsame]
  | none =>
    have hsame := funext (hopening (some (s.vramLocals.insert id { vramCap := cap })) env id
      { vramCap := cap })
    dsimp only [Option.getD_some] at hsame ⊢
    rw [hsame]

theorem opening_of_canOpen (id : VramId) (vl : VramLocal) {v : GpuVram} (h : s.canOpen env v = true) :
    ∃ handle size, env.gemOpen (v.importName.getD 0) = some (handle, size) ∧ opening s env id vl v =
      (.done, some (s.vramLocals.insert id { vl with importHandle := some handle }, false)) := by
  simp only [Session.canOpen, Bool.and_eq_true, Bool.not_eq_true', Option.isSome_iff_exists] at h
  obtain ⟨hpending, ⟨handle, size⟩, hopen⟩ := h
  exact ⟨handle, size, hopen, by simp [opening, hopen, hpending]⟩

theorem opening_of_not_canOpen {v : GpuVram} (h : s.canOpen env v = false) :
    opening s env id vl v = (.invalidState, some (s.vramLocals, s.pending.valid)) := by
  unfold opening
  cases hopen : env.gemOpen (v.importName.getD 0) with
  | none => rfl
  | some handle =>
    have hpending : s.pending.valid = true := by simpa [Session.canOpen, hopen] using h
    simp [hpending]

theorem imported_ok (h : importVram w sid s env cap id = .ok a) (hs' : a.world.sessions sid = some s') :
    (importVram w sid s env cap id).map (Outcome.imported sid) =
      .ok (a.result, some (s'.vramLocals, s'.pending.valid)) := by
  rw [h]
  simp [Except.map, Outcome.imported, hs']

theorem exists_of_imported {entries : IdSpace VramLocal} {pending : Bool} {result : Result}
    (h : (importVram w sid s env cap id).map (Outcome.imported sid) = .ok (result, some (entries, pending))) :
    ∃ a s', importVram w sid s env cap id = .ok a ∧ a.world.sessions sid = some s' ∧
      a.result = result ∧ s'.vramLocals = entries := by
  cases ha : importVram w sid s env cap id with
  | error f =>
    rw [ha] at h
    cases h
  | ok a =>
    simp only [ha, Except.map, Outcome.imported, Except.ok.injEq, Prod.mk.injEq, Option.map_eq_some_iff] at h
    obtain ⟨hresult, s', hs', hlocals, -⟩ := h
    exact ⟨a, s', rfl, hs', hresult, hlocals⟩

theorem World.HandleFor.of_canOpen {v : GpuVram} {handle size : Nat} (hopens : env.Opens refers)
    (hv : w.apply cap = .ok v) (hopen : env.gemOpen (v.importName.getD 0) = some (handle, size)) :
    w.HandleFor refers handle cap := by
  cases hname : v.importName with
  | none =>
    rw [hname, Option.getD_none, hopens.unnamed] at hopen
    cases hopen
  | some name =>
    rw [hname] at hopen
    exact ⟨v, name, hv, hname, hopens.opened hopen⟩

theorem AllOrNothing.of_throws {result : Result} (hlocals : s'.vramLocals = s.vramLocals)
    (hpending : s'.pending.valid = s.pending.valid) (hresult : result ≠ .done) :
    AllOrNothing w refers s s' cap id result where
  throws _ := ⟨hlocals, importsAlike hlocals hpending⟩
  returns h := absurd h hresult

theorem AllOrNothing.of_returns {handle : Nat} (hvl : s'.vramLocals.lookup id = some vl)
    (hcap : vl.vramCap = cap) (hhandle : vl.importHandle = some handle)
    (hfor : w.HandleFor refers handle cap) : AllOrNothing w refers s s' cap id .done where
  throws h := absurd rfl h
  returns _ := ⟨vl, handle, hvl, hcap, hhandle, hfor⟩

/-- An import that opens the buffer leaves an entry for it, with the capability it had. -/
theorem allOrNothing_of_opening {v : GpuVram} {t : Session} {result : Result} (hopens : env.Opens refers)
    (hv : w.apply cap = .ok v) (ht : t.canOpen env v = true) (hcap : vl.vramCap = cap)
    (h : opening t env id vl v = (result, some (s'.vramLocals, s'.pending.valid))) :
    AllOrNothing w refers s s' cap id result := by
  obtain ⟨handle, size, hopen, he⟩ := opening_of_canOpen id vl ht
  rw [he] at h
  simp only [Prod.mk.injEq, Option.some.injEq] at h
  obtain ⟨rfl, hlocals, -⟩ := h
  have hentry : s'.vramLocals.lookup id = some { vl with importHandle := some handle } := by
    rw [← hlocals]
    exact AList.lookup_insert _
  exact .of_returns hentry hcap rfl (.of_canOpen hopens hv hopen)

theorem allOrNothing_of_ready (hopens : env.Opens refers) (hready : ImportReady w s env refers cap id)
    (hs : w.sessions sid = some s) (ha : importVram w sid s env cap id = .ok a)
    (hs' : a.world.sessions sid = some s') : AllOrNothing w refers s s' cap id a.result := by
  have himported := (imported_ok ha hs').symm.trans importVram_imported
  unfold ImportReady at hready
  cases hlookup : s.vramLocals.lookup id with
  | some vl =>
    simp only [hlookup] at hready himported
    cases hhandle : vl.importHandle with
    | some handle =>
      simp only [hhandle, Option.isSome_some, if_true, Except.ok.injEq, Prod.mk.injEq, Option.some.injEq]
        at hready himported
      obtain ⟨hresult, hlocals, -⟩ := himported
      rw [hresult]
      exact .of_returns (hlocals ▸ hlookup) hready.1 hhandle hready.2
    | none =>
      simp only [hhandle, Option.isSome_none, Bool.false_eq_true, if_false] at hready himported
      cases hv : w.apply cap with
      | error f => simp [hv, Except.map] at himported
      | ok v =>
        simp only [hv, Except.map, Except.ok.injEq] at hready himported
        cases hcan : s.canOpen env v with
        | true => exact allOrNothing_of_opening hopens hv hcan (hready v rfl hcan) himported.symm
        | false =>
          rw [opening_of_not_canOpen hcan] at himported
          simp only [Prod.mk.injEq, Option.some.injEq] at himported
          obtain ⟨hresult, hlocals, hpending⟩ := himported
          exact .of_throws hlocals hpending (by simp [hresult])
  | none =>
    simp only [hlookup] at hready himported
    cases hnew : env.newVramLocal with
    | false =>
      simp only [hnew, Bool.false_eq_true, if_false, hs, Option.map_some, Except.ok.injEq, Prod.mk.injEq,
        Option.some.injEq] at himported
      obtain ⟨hresult, hlocals, hpending⟩ := himported
      exact .of_throws hlocals hpending (by simp [hresult])
    | true =>
      simp only [hnew, if_true] at himported
      cases hv : w.apply cap with
      | error f => simp [hv, Except.map] at himported
      | ok v =>
        simp only [hv, Except.map, Except.ok.injEq] at himported
        have hcan : ({ s with vramLocals := s.vramLocals.insert id { vramCap := cap } } : Session).canOpen
          env v = true := hready hnew v hv
        exact allOrNothing_of_opening hopens hv hcan rfl himported.symm

/-- An import is all or nothing if it finds an entry of its own, or none and the kernel opens
the buffer. -/
theorem importVram_allOrNothing_iff (hopens : env.Opens refers) (hs : w.sessions sid = some s) :
    (∀ a s', importVram w sid s env cap id = .ok a → a.world.sessions sid = some s' →
      AllOrNothing w refers s s' cap id a.result) ↔ ImportReady w s env refers cap id := by
  refine ⟨fun h => ?_, fun hready a s' => allOrNothing_of_ready hopens hready hs⟩
  have himported := @importVram_imported w sid s env cap id
  unfold ImportReady
  cases hlookup : s.vramLocals.lookup id with
  | some vl =>
    simp only [hlookup] at himported
    dsimp only
    cases hhandle : vl.importHandle with
    | some handle =>
      simp only [hhandle, Option.isSome_some, if_true] at himported
      obtain ⟨a, s', ha, hs', hresult, hlocals⟩ := exists_of_imported himported
      obtain ⟨vl', handle', hvl', hcap, hhandle', hfor⟩ := (h a s' ha hs').returns hresult
      rw [hlocals, hlookup, Option.some.injEq] at hvl'
      subst hvl'
      rw [hhandle, Option.some.injEq] at hhandle'
      subst hhandle'
      exact ⟨hcap, hfor⟩
    | none =>
      intro v hv hcan
      obtain ⟨handle, size, -, he⟩ := opening_of_canOpen id vl hcan
      simp only [hhandle, Option.isSome_none, Bool.false_eq_true, if_false, hv, Except.map, he] at himported
      obtain ⟨a, s', ha, hs', hresult, hlocals⟩ := exists_of_imported himported
      obtain ⟨vl', -, hvl', hcap, -⟩ := (h a s' ha hs').returns hresult
      rw [hlocals, AList.lookup_insert, Option.some.injEq] at hvl'
      rw [← hcap, ← hvl']
  | none =>
    intro hnew v hv
    cases hcan : s.canOpen env v with
    | true => rfl
    | false =>
      -- the entry made for this import stays
      have hcan' : ({ s with vramLocals := s.vramLocals.insert id { vramCap := cap } } : Session).canOpen
        env v = false := hcan
      simp only [hlookup, hnew, if_true, hv, Except.map, opening_of_not_canOpen hcan'] at himported
      obtain ⟨a, s', ha, hs', hresult, hlocals⟩ := exists_of_imported himported
      have hsame := ((h a s' ha hs').throws (by simp [hresult])).1
      rw [hlocals] at hsame
      have hentry : (s.vramLocals.insert id { vramCap := cap }).lookup id = none := by rw [hsame, hlookup]
      rw [AList.lookup_insert] at hentry
      cases hentry

end Laws

-- ---------------------------------------------------------------------------
-- A buffer that was never exported
-- ---------------------------------------------------------------------------

/-- Two buffers of session 1, of which only the second was exported. -/
def sharing : World where
  sessions := Function.update (fun _ => none) 0 (some {})
  vrams := fun g => if g = 0 then some { bo := 0, owner := 1 }
    else if g = 1 then some { bo := 1, owner := 1, importName := some 7 } else none

def naming : Env where
  newVramLocal := true
  gemOpen := fun name => if name = 7 then some (3, 4096) else none

def named (handle name : Nat) : Prop := handle = 3 ∧ name = 7

theorem naming_opens : naming.Opens named where
  unnamed := rfl
  opened {name handle size} h := by
    by_cases hname : name = 7
    · simp only [naming, hname, if_true, Option.some.injEq, Prod.mk.injEq] at h
      exact ⟨h.1.symm, hname⟩
    · simp [naming, hname] at h

theorem import_exported : ∃ a s', importVram sharing 0 {} naming (some 1) 5 = .ok a ∧
    a.world.sessions 0 = some s' ∧ AllOrNothing sharing named {} s' (some 1) 5 a.result := by
  refine ⟨_, _, rfl, rfl, (importVram_allOrNothing_iff naming_opens (s := {}) rfl).mpr ?_ _ _ rfl rfl⟩
  intro hnew v hv
  obtain rfl : ({ bo := 1, owner := 1, importName := some 7 } : GpuVram) = v := Except.ok.inj hv
  rfl

/-- The first buffer cannot be imported. Then the import of the second returns, with an
entry for the first. -/
theorem import_leaves_entry : ∃ a s', importVram sharing 0 {} naming (some 0) 5 = .ok a ∧
    a.world.sessions 0 = some s' ∧ ¬ AllOrNothing sharing named {} s' (some 0) 5 a.result ∧
    ∃ b s'', importVram a.world 0 s' naming (some 1) 5 = .ok b ∧ b.world.sessions 0 = some s'' ∧
      ¬ AllOrNothing a.world named s' s'' (some 1) 5 b.result := by
  refine ⟨_, _, rfl, rfl, fun h => ?_, _, _, rfl, rfl, fun h => ?_⟩
  · have hsame := (h.throws (by rintro ⟨⟩)).1
    cases congrArg (fun l : IdSpace VramLocal => (l.lookup 5).isSome) hsame
  · obtain ⟨vl, handle, hvl, hcap, -⟩ := h.returns rfl
    cases hvl
    cases hcap

end Allwinner.Gpu
