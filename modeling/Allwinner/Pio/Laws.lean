import Allwinner.Pio.Driver

/-!
# What the driver's parts do

A call on behalf of a session changes the counts of the declarations only, so that
what `assigned_pin` answers depends on the configuration alone. The assignment of
sessions is a series of such calls.
-/

namespace Allwinner.Pio

open Library (ListModel)
open Modem (Text)

-- ---------------------------------------------------------------------------
-- Calls on behalf of a session
-- ---------------------------------------------------------------------------

namespace PinDeclaration

/-- What the configuration says of a declaration. -/
def declared (pin : PinDeclaration) : Name × Option PinId × Attr := (pin.name, pin.id, pin.attr)

/-- The declaration with another count, if it is of the pin and direction. -/
def counted (id : PinId) (dir : Direction) (f : UInt32 → UInt32) (pin : PinDeclaration) : PinDeclaration :=
  if pin.matchesPin id dir then { pin with refCount := f pin.refCount } else pin

variable {pin : PinDeclaration} {id : PinId} {dir : Direction} {f : UInt32 → UInt32}

theorem matchesPin_iff : pin.matchesPin id dir = true ↔ pin.id = some id ∧ pin.attr.function.direction = dir := by
  rw [matchesPin, Bool.and_eq_true, decide_eq_true_eq, decide_eq_true_eq, eq_comm (a := dir)]

@[simp] theorem declared_counted (pin : PinDeclaration) : (pin.counted id dir f).declared = pin.declared := by
  unfold counted
  split <;> rfl

@[simp] theorem id_counted : (pin.counted id dir f).id = pin.id :=
  congrArg (·.2.1) (declared_counted pin)

@[simp] theorem attr_counted : (pin.counted id dir f).attr = pin.attr :=
  congrArg (·.2.2) (declared_counted pin)

@[simp] theorem name_counted : (pin.counted id dir f).name = pin.name :=
  congrArg (·.1) (declared_counted pin)

theorem acquire_fst (pio : Registers) : (pin.acquire id pio).1 = { pin with refCount := pin.refCount + 1 } := rfl

theorem release_fst (pio : Registers) : (pin.release id pio).1 = { pin with refCount := pin.refCount - 1 } := by
  unfold release
  dsimp only
  split <;> rfl

end PinDeclaration

theorem withPinDeclaration_fst {id : PinId} {dir : Direction} {f : UInt32 → UInt32}
    {fn : PinDeclaration → Registers → PinDeclaration × Registers}
    (hfn : ∀ pin pio, (fn pin pio).1 = { pin with refCount := f pin.refCount })
    (pins : List PinDeclaration) (pio : Registers) :
    (withPinDeclaration id dir fn pins pio).1 = pins.map (PinDeclaration.counted id dir f) := by
  induction pins generalizing pio with
  | nil => rfl
  | cons pin pins ih =>
    simp only [withPinDeclaration, List.map_cons, PinDeclaration.counted]
    split
    · rw [ih, hfn]
    · rw [ih]

namespace Pins

variable {p p' : Pins} {id : PinId} {dir : Direction} {s : Session} {new : Option PinId}

theorem pins_acquirePin : (p.acquirePin id dir).pins = p.pins.map (PinDeclaration.counted id dir (· + 1)) :=
  withPinDeclaration_fst (fun _ pio => PinDeclaration.acquire_fst pio) p.pins p.pio

theorem pins_releasePin : (p.releasePin id dir).pins = p.pins.map (PinDeclaration.counted id dir (· - 1)) :=
  withPinDeclaration_fst (fun _ pio => PinDeclaration.release_fst pio) p.pins p.pio

/-- The declarations are the same but for their counts. -/
def Alike (p p' : Pins) : Prop := p'.pins.map PinDeclaration.declared = p.pins.map PinDeclaration.declared

theorem Alike.refl (p : Pins) : Alike p p := rfl

theorem Alike.trans {p₁ p₂ p₃ : Pins} (h₁ : Alike p₁ p₂) (h₂ : Alike p₂ p₃) : Alike p₁ p₃ := Eq.trans h₂ h₁

theorem alike_of_counted {f : UInt32 → UInt32} (h : p'.pins = p.pins.map (PinDeclaration.counted id dir f)) :
    Alike p p' := by
  simp [Alike, h, Function.comp_def]

theorem alike_acquirePin : Alike p (p.acquirePin id dir) := alike_of_counted pins_acquirePin

theorem alike_releasePin : Alike p (p.releasePin id dir) := alike_of_counted pins_releasePin

theorem alike_reassign : Alike p (p.reassign s new) := by
  unfold reassign
  dsimp only
  split
  · exact .refl p
  · cases s.assigned <;> cases new
    · exact .refl p
    · exact alike_acquirePin
    · exact alike_releasePin
    · exact alike_releasePin.trans alike_acquirePin

theorem lookup_congr {name : Name} {pins pins' : List PinDeclaration} {found : Option PinId}
    (h : pins'.map PinDeclaration.declared = pins.map PinDeclaration.declared) :
    lookup name dir pins' found = lookup name dir pins found := by
  induction pins generalizing pins' found with
  | nil =>
    cases pins' with
    | nil => rfl
    | cons pin pins' => simp at h
  | cons pin pins ih =>
    cases pins' with
    | nil => simp at h
    | cons pin' pins' =>
      simp only [List.map_cons, List.cons.injEq, PinDeclaration.declared, Prod.mk.injEq] at h
      obtain ⟨⟨hname, hid, hattr⟩, hrest⟩ := h
      simp only [lookup, hname, hid, hattr]
      split
      · cases pin.id with
        | none => rfl
        | some id => exact ih hrest
      · exact ih hrest

/-- The answer to a session depends on what is declared only. -/
theorem Alike.assignedPin (h : Alike p p') (config : Config) (label : Text) (dir : Direction) :
    p'.assignedPin config label dir = p.assignedPin config label dir := by
  unfold Pins.assignedPin
  cases config.policy label with
  | none => rfl
  | some pin => exact lookup_congr h

end Pins

-- ---------------------------------------------------------------------------
-- The assignment of sessions
-- ---------------------------------------------------------------------------

/-- What a session is created with. -/
def Session.asks (s : Session) : SessionKind × Text := (s.kind, s.label)

theorem exists_asks {sessions sessions' : List Session} {s : Session}
    (h : sessions'.map Session.asks = sessions.map Session.asks) (hs : s ∈ sessions) :
    ∃ s' ∈ sessions', s'.kind = s.kind ∧ s'.label = s.label := by
  have hmem : s.asks ∈ sessions'.map Session.asks := h ▸ List.mem_map_of_mem hs
  obtain ⟨s', hs', he⟩ := List.mem_map.mp hmem
  exact ⟨s', hs', Prod.mk.inj he⟩

section Assignment

variable {config : Config} {kind : SessionKind} {J : List Session → Pins → Prop}

/-- What each assignment of a session keeps, `update_assignments` keeps. -/
theorem updateAssignments_induct
    (hstep : ∀ pre s post p new, J (pre ++ s :: post) p →
      p.assignedPin config s.label s.kind.direction = .ok new →
      J (pre ++ { s with assigned := new } :: post) (p.reassign s new))
    (pre : List Session) {sessions sessions' : List Session} {p p' : Pins} (hJ : J (pre ++ sessions) p)
    (hok : p.updateAssignments config kind sessions = .ok (sessions', p')) : J (pre ++ sessions') p' := by
  induction sessions generalizing pre sessions' p with
  | nil =>
    simp only [Pins.updateAssignments, Except.ok.injEq, Prod.mk.injEq] at hok
    obtain ⟨rfl, rfl⟩ := hok
    exact hJ
  | cons s sessions ih =>
    unfold Pins.updateAssignments at hok
    split at hok
    · rename_i hkind
      subst hkind
      cases hnew : p.assignedPin config s.label s.kind.direction with
      | error e => simp [hnew] at hok
      | ok new =>
        simp only [hnew] at hok
        cases hrest : (p.reassign s new).updateAssignments config s.kind sessions with
        | error e => simp [hrest, Except.map] at hok
        | ok r =>
          simp only [hrest, Except.map, Except.ok.injEq, Prod.mk.injEq] at hok
          obtain ⟨rfl, rfl⟩ := hok
          have hnext := hstep pre s sessions p new hJ hnew
          rw [List.append_cons] at hnext ⊢
          exact ih _ hnext hrest
    · cases hrest : p.updateAssignments config kind sessions with
      | error e => simp [hrest, Except.map] at hok
      | ok r =>
        simp only [hrest, Except.map, Except.ok.injEq, Prod.mk.injEq] at hok
        obtain ⟨rfl, rfl⟩ := hok
        rw [List.append_cons] at hJ ⊢
        exact ih _ hJ hrest

/-- The three roots after each other. -/
theorem updateSessions_ok {p : Pins} {sessions : List Session} {m : Main}
    (hok : Main.updateSessions config p sessions = .ok m) : m.config = config ∧
    ∃ s₁ p₁ s₂ p₂, p.updateAssignments config .pinState sessions = .ok (s₁, p₁) ∧
      p₁.updateAssignments config .pinControl s₁ = .ok (s₂, p₂) ∧
      p₂.updateAssignments config .irq s₂ = .ok (m.sessions, m.toPins) := by
  unfold Main.updateSessions at hok
  cases h₁ : p.updateAssignments config .pinState sessions with
  | error e => simp [h₁, bind, Except.bind] at hok
  | ok r₁ =>
    obtain ⟨s₁, p₁⟩ := r₁
    cases h₂ : p₁.updateAssignments config .pinControl s₁ with
    | error e => simp [h₁, h₂, bind, Except.bind] at hok
    | ok r₂ =>
      obtain ⟨s₂, p₂⟩ := r₂
      cases h₃ : p₂.updateAssignments config .irq s₂ with
      | error e => simp [h₁, h₂, h₃, bind, Except.bind] at hok
      | ok r₃ =>
        obtain ⟨s₃, p₃⟩ := r₃
        simp only [h₁, h₂, h₃, bind, Except.bind, pure, Except.pure, Except.ok.injEq] at hok
        subst hok
        exact ⟨rfl, s₁, p₁, s₂, p₂, rfl, h₂, h₃⟩

theorem updateSessions_induct
    (hstep : ∀ pre s post p new, J (pre ++ s :: post) p →
      p.assignedPin config s.label s.kind.direction = .ok new →
      J (pre ++ { s with assigned := new } :: post) (p.reassign s new))
    {sessions : List Session} {p : Pins} {m : Main} (hJ : J sessions p)
    (hok : Main.updateSessions config p sessions = .ok m) : J m.sessions m.toPins := by
  obtain ⟨-, s₁, p₁, s₂, p₂, h₁, h₂, h₃⟩ := updateSessions_ok hok
  have hJ₁ : J s₁ p₁ := updateAssignments_induct hstep [] hJ h₁
  have hJ₂ : J s₂ p₂ := updateAssignments_induct hstep [] hJ₁ h₂
  exact updateAssignments_induct hstep [] hJ₂ h₃

/-- The session has what `assigned_pin` answers. -/
def Settled (config : Config) (p : Pins) (s : Session) : Prop :=
  p.assignedPin config s.label s.kind.direction = .ok s.assigned

theorem settled_updateAssignments {sessions sessions' : List Session} {p p' : Pins}
    (hok : p.updateAssignments config kind sessions = .ok (sessions', p')) :
    p.Alike p' ∧ sessions'.map Session.asks = sessions.map Session.asks ∧
    (∀ s ∈ sessions', s.kind = kind → Settled config p s) ∧
    (∀ s ∈ sessions', s.kind ≠ kind → s ∈ sessions) := by
  induction sessions generalizing sessions' p with
  | nil =>
    simp only [Pins.updateAssignments, Except.ok.injEq, Prod.mk.injEq] at hok
    obtain ⟨rfl, rfl⟩ := hok
    exact ⟨.refl p, rfl, by simp, by simp⟩
  | cons s sessions ih =>
    unfold Pins.updateAssignments at hok
    split at hok
    · rename_i hkind
      subst hkind
      cases hnew : p.assignedPin config s.label s.kind.direction with
      | error e => simp [hnew] at hok
      | ok new =>
        simp only [hnew] at hok
        cases hrest : (p.reassign s new).updateAssignments config s.kind sessions with
        | error e => simp [hrest, Except.map] at hok
        | ok r =>
          simp only [hrest, Except.map, Except.ok.injEq, Prod.mk.injEq] at hok
          obtain ⟨rfl, rfl⟩ := hok
          have halike : p.Alike (p.reassign s new) := Pins.alike_reassign
          obtain ⟨hend, hlabels, hsettled, hothers⟩ := ih hrest
          refine ⟨halike.trans hend, by simp [hlabels, Session.asks], ?_, ?_⟩
          · intro s' hs' hk
            rcases List.mem_cons.mp hs' with rfl | hs'
            · exact hnew
            · have := hsettled s' hs' hk
              rwa [Settled, halike.assignedPin] at this
          · intro s' hs' hk
            rcases List.mem_cons.mp hs' with rfl | hs'
            · exact absurd rfl hk
            · exact .tail _ (hothers s' hs' hk)
    · rename_i hkind
      cases hrest : p.updateAssignments config kind sessions with
      | error e => simp [hrest, Except.map] at hok
      | ok r =>
        simp only [hrest, Except.map, Except.ok.injEq, Prod.mk.injEq] at hok
        obtain ⟨rfl, rfl⟩ := hok
        obtain ⟨hend, hlabels, hsettled, hothers⟩ := ih hrest
        refine ⟨hend, by simp [hlabels, Session.asks], ?_, ?_⟩
        · intro s' hs' hk
          rcases List.mem_cons.mp hs' with rfl | hs'
          · exact absurd hk hkind
          · exact hsettled s' hs' hk
        · intro s' hs' hk
          rcases List.mem_cons.mp hs' with rfl | hs'
          · exact .head _
          · exact .tail _ (hothers s' hs' hk)

/-- After an update each session has what `assigned_pin` answers. -/
theorem settled_updateSessions {sessions : List Session} {p : Pins} {m : Main}
    (hok : Main.updateSessions config p sessions = .ok m) : m.config = config ∧ p.Alike m.toPins ∧
    m.sessions.map Session.asks = sessions.map Session.asks ∧
    ∀ s ∈ m.sessions, Settled m.config m.toPins s := by
  obtain ⟨hconfig, s₁, p₁, s₂, p₂, h₁, h₂, h₃⟩ := updateSessions_ok hok
  obtain ⟨ha₁, hl₁, hs₁, -⟩ := settled_updateAssignments h₁
  obtain ⟨ha₂, hl₂, hs₂, ho₂⟩ := settled_updateAssignments h₂
  obtain ⟨ha₃, hl₃, hs₃, ho₃⟩ := settled_updateAssignments h₃
  refine ⟨hconfig, (ha₁.trans ha₂).trans ha₃, by rw [hl₃, hl₂, hl₁], fun s hs => ?_⟩
  rw [Settled, hconfig, ha₃.assignedPin]
  cases hk : s.kind with
  | irq => simpa [Settled, hk] using hs₃ s hs hk
  | pinControl =>
    have := hs₂ s (ho₃ s hs (by simp [hk])) hk
    rwa [Settled, ← ha₂.assignedPin, hk] at this
  | pinState =>
    have := hs₁ s (ho₂ s (ho₃ s hs (by simp [hk])) (by simp [hk])) hk
    rwa [Settled, ← ha₁.assignedPin, ← ha₂.assignedPin, hk] at this

/-- No answer to one of the sessions fails. -/
def Answered (config : Config) (p : Pins) (sessions : List Session) : Prop :=
  ∀ s ∈ sessions, ∃ new, p.assignedPin config s.label s.kind.direction = .ok new

theorem Answered.alike {sessions : List Session} {p p' : Pins} (h : Answered config p sessions) (ha : p.Alike p') :
    Answered config p' sessions := by
  intro s hs
  rw [ha.assignedPin]
  exact h s hs

theorem Answered.labels {sessions sessions' : List Session} {p : Pins} (h : Answered config p sessions)
    (hl : sessions'.map Session.asks = sessions.map Session.asks) :
    Answered config p sessions' := by
  intro s hs
  obtain ⟨s', hs', hkind, hlabel⟩ := exists_asks hl.symm hs
  rw [← hkind, ← hlabel]
  exact h s' hs'

theorem updateAssignments_isOk (kind : SessionKind) {sessions : List Session} {p : Pins}
    (h : Answered config p sessions) : ∃ sessions' p',
      p.updateAssignments config kind sessions = .ok (sessions', p') ∧ Answered config p' sessions' := by
  have hok : ∃ r, p.updateAssignments config kind sessions = .ok r := by
    induction sessions generalizing p with
    | nil => exact ⟨_, rfl⟩
    | cons s sessions ih =>
      have htail : Answered config p sessions := fun s' hs' => h s' (.tail _ hs')
      unfold Pins.updateAssignments
      split
      · rename_i hkind
        subst hkind
        obtain ⟨new, hnew⟩ := h s (.head _)
        obtain ⟨r, hr⟩ := ih (htail.alike (@Pins.alike_reassign p s new))
        simp only [hnew, hr]
        exact ⟨_, rfl⟩
      · obtain ⟨r, hr⟩ := ih htail
        rw [hr]
        exact ⟨_, rfl⟩
  obtain ⟨⟨sessions', p'⟩, hr⟩ := hok
  obtain ⟨halike, hlabels, -⟩ := settled_updateAssignments hr
  exact ⟨_, _, hr, (h.alike halike).labels hlabels⟩

/-- The update of the sessions gets through, unless the answer to one of them fails. -/
theorem updateSessions_isOk {sessions : List Session} {p : Pins} (h : Answered config p sessions) :
    ∃ m, Main.updateSessions config p sessions = .ok m := by
  obtain ⟨s₁, p₁, hr₁, h₁⟩ := updateAssignments_isOk .pinState h
  obtain ⟨s₂, p₂, hr₂, h₂⟩ := updateAssignments_isOk .pinControl h₁
  obtain ⟨s₃, p₃, hr₃, -⟩ := updateAssignments_isOk .irq h₂
  refine ⟨{ toPins := p₃, config, sessions := s₃ }, ?_⟩
  simp [Main.updateSessions, hr₁, hr₂, hr₃, bind, Except.bind, pure, Except.pure]

end Assignment

end Allwinner.Pio
