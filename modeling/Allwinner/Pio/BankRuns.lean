import Allwinner.Pio.Banks
import Allwinner.Pio.Restored

/-!
# The driver on the banks

Whatever the driver does to its registers is a sequence of operations that do not depend on what
they hold. So a run of the driver can be followed on the banks, step by step.
-/

namespace Allwinner.Pio

open Modem (Text)

-- ---------------------------------------------------------------------------
-- Operations
-- ---------------------------------------------------------------------------

/-- The registers are changed by operations. -/
def Acts (f : Registers → Registers) : Prop := ∃ ops, ∀ c, applied ops c = { c with pins := f c.pins }

namespace Acts

variable {f g : Registers → Registers}

theorem id : Acts fun pio => pio := ⟨[], fun _ => rfl⟩

theorem comp (hf : Acts f) (hg : Acts g) : Acts fun pio => g (f pio) := by
  obtain ⟨ops, hf⟩ := hf
  obtain ⟨ops', hg⟩ := hg
  exact ⟨ops ++ ops', fun c => by rw [applied_append, hf, hg]⟩

theorem ite {p : Prop} [Decidable p] (hf : Acts f) (hg : Acts g) :
    Acts fun pio => if p then f pio else g pio := by
  by_cases h : p
  · simpa [h] using hf
  · simpa [h] using hg

theorem configure (id : PinId) (attr : Attr) : Acts fun pio => pio.configure id attr :=
  ⟨[.configure id attr], fun _ => rfl⟩

theorem state (id : PinId) (level : Level) : Acts fun pio => pio.state id level :=
  ⟨[.state id level], fun _ => rfl⟩

end Acts

/-- What is computed from the registers is something fixed, and registers changed by operations. -/
def Drives {α β ε : Type} (mk : α → Registers → β) (f : Registers → Except ε β) : Prop :=
  (∃ e, ∀ pio, f pio = .error e) ∨ ∃ a g, Acts g ∧ ∀ pio, f pio = .ok (mk a (g pio))

namespace Drives

variable {α β γ δ ε : Type} {mk : α → Registers → β} {mk' : γ → Registers → δ} {f : Registers → Except ε β}

theorem bind {h : β → Except ε δ} (hf : Drives mk f) (hh : ∀ a, Drives mk' fun pio => h (mk a pio)) :
    Drives mk' fun pio => f pio >>= h := by
  obtain ⟨e, he⟩ | ⟨a, g, hg, hf⟩ := hf
  · exact .inl ⟨e, fun pio => congrArg (· >>= h) (he pio)⟩
  · obtain ⟨e, he⟩ | ⟨b, g', hg', hh⟩ := hh a
    · exact .inl ⟨e, fun pio => (congrArg (· >>= h) (hf pio)).trans (he _)⟩
    · exact .inr ⟨b, _, hg.comp hg', fun pio => (congrArg (· >>= h) (hf pio)).trans (hh _)⟩

theorem map {h : β → δ} (hf : Drives mk f) (k : α → γ) (hh : ∀ a pio, h (mk a pio) = mk' (k a) pio) :
    Drives mk' fun pio => (f pio).map h := by
  obtain ⟨e, he⟩ | ⟨a, g, hg, hf⟩ := hf
  · exact .inl ⟨e, fun pio => congrArg (Except.map h) (he pio)⟩
  · exact .inr ⟨k a, g, hg, fun pio => (congrArg (Except.map h) (hf pio)).trans (congrArg Except.ok (hh _ _))⟩

theorem after {g : Registers → Registers} (hg : Acts g) (hf : Drives mk f) : Drives mk fun pio => f (g pio) := by
  obtain ⟨e, he⟩ | ⟨a, g', hg', hf⟩ := hf
  · exact .inl ⟨e, fun pio => he _⟩
  · exact .inr ⟨a, _, hg.comp hg', fun pio => hf _⟩

end Drives

/-- The same without failure. -/
def Moves {α β : Type} (mk : α → Registers → β) (f : Registers → β) : Prop :=
  ∃ a g, Acts g ∧ ∀ pio, f pio = mk a (g pio)

namespace Moves

variable {α β γ δ ε : Type} {mk : α → Registers → β} {mk' : γ → Registers → δ} {f : Registers → β}

theorem comp {h : β → δ} (hf : Moves mk f) (hh : ∀ a, Moves mk' fun pio => h (mk a pio)) :
    Moves mk' fun pio => h (f pio) := by
  obtain ⟨a, g, hg, hf⟩ := hf
  obtain ⟨b, g', hg', hh⟩ := hh a
  exact ⟨b, _, hg.comp hg', fun pio => (congrArg h (hf pio)).trans (hh _)⟩

theorem drives (h : Moves mk f) : Drives mk fun pio => (.ok (f pio) : Except ε β) := by
  obtain ⟨a, g, hg, hf⟩ := h
  exact .inr ⟨a, g, hg, fun pio => congrArg Except.ok (hf pio)⟩

end Moves

-- ---------------------------------------------------------------------------
-- Declarations
-- ---------------------------------------------------------------------------

namespace PinDeclaration

variable (pin : PinDeclaration)

theorem reset_acts : Acts pin.reset := by
  unfold reset
  cases pin.id with
  | none => exact .id
  | some id => exact .configure id .disabled

theorem updateFromNode_moves (fmt : Formats) (node : Node) : Moves Prod.mk (pin.updateFromNode fmt node) := by
  unfold updateFromNode
  cases parse fmt node with
  | error e => exact ⟨_, _, pin.reset_acts, fun _ => rfl⟩
  | ok x =>
    obtain ⟨id, attr⟩ := x
    refine ⟨_, _, ?_, fun _ => rfl⟩
    exact ((Acts.ite pin.reset_acts .id).comp (.ite (.configure id attr) .id)).comp
      (.ite (.state id attr.defaultState) .id)

theorem acquire_moves (id : PinId) : Moves Prod.mk (pin.acquire id) := by
  refine ⟨_, _, ?_, fun _ => rfl⟩
  exact (Acts.ite (.ite (.configure id pin.attr) (.state id pin.attr.defaultState)) .id).comp
    (.ite (.configure id pin.attr) .id)

theorem release_moves (id : PinId) : Moves Prod.mk (pin.release id) := by
  unfold release
  by_cases h : pin.refCount - 1 > 0
  · exact ⟨_, _, .id, fun pio => if_pos h⟩
  · refine ⟨_, _, ?_, fun pio => if_neg h⟩
    exact (Acts.ite (.ite (.configure id .disabled) (.state id pin.attr.defaultState)) .id).comp
      (.ite (.configure id .disabled) .id)

theorem withPinDeclaration_moves (id : PinId) (dir : Direction)
    {fn : PinDeclaration → Registers → PinDeclaration × Registers} (hfn : ∀ pin, Moves Prod.mk (fn pin))
    (pins : List PinDeclaration) : Moves Prod.mk (withPinDeclaration id dir fn pins) := by
  induction pins with
  | nil => exact ⟨[], _, .id, fun _ => rfl⟩
  | cons pin pins ih =>
    obtain ⟨pins', g', hg', hpins⟩ := ih
    by_cases hmatches : pin.matchesPin id dir = true
    · obtain ⟨pin', g, hg, hpin⟩ := hfn pin
      refine ⟨pin' :: pins', _, hg.comp hg', fun pio => ?_⟩
      simp only [withPinDeclaration, hmatches, if_true, hpin, hpins]
    · refine ⟨pin :: pins', g', hg', fun pio => ?_⟩
      simp only [withPinDeclaration, hmatches, hpins, Bool.false_eq_true, if_false]

theorem destroy_acts (pins : List PinDeclaration) :
    Acts fun pio => pins.foldl (fun pio pin => pin.destroy pio) pio := by
  induction pins with
  | nil => exact .id
  | cons pin pins ih => exact pin.reset_acts.comp ih

/-- The update of a list of declarations. -/
theorem model_drives (fmt : Formats) (nodes : List Node) (existing : List PinDeclaration) :
    Drives Prod.mk ((model fmt).updateFromNode nodes existing) := by
  induction nodes generalizing existing with
  | nil => exact .inr ⟨[], _, destroy_acts existing, fun _ => rfl⟩
  | cons node nodes ih =>
    by_cases htype : (model fmt).typeMatches node = true
    · cases hclaim : (model fmt).claim node existing with
      | error e =>
        refine .inl ⟨e, fun pio => ?_⟩
        simp only [Library.ListModel.updateFromNode, htype, if_true, hclaim]
      | ok x =>
        obtain ⟨found, left⟩ := x
        obtain ⟨pin, g, hg, hupdate⟩ := (found.getD ((model fmt).create node)).updateFromNode_moves fmt node
        have heq : (model fmt).updateFromNode (node :: nodes) existing = fun pio =>
            ((model fmt).updateFromNode nodes left (g pio)).map fun x => (pin :: x.1, x.2) := by
          funext pio
          have hstep : (model fmt).update (found.getD ((model fmt).create node)) node pio = (pin, g pio) :=
            hupdate pio
          simp only [Library.ListModel.updateFromNode, htype, if_true, hclaim, hstep]
        rw [heq]
        exact .after hg ((ih left).map (pin :: ·) fun _ _ => rfl)
    · have heq : (model fmt).updateFromNode (node :: nodes) existing =
          (model fmt).updateFromNode nodes existing := by
        funext pio
        simp only [Library.ListModel.updateFromNode, htype, Bool.false_eq_true, if_false]
      rw [heq]
      exact ih existing

end PinDeclaration

-- ---------------------------------------------------------------------------
-- Sessions
-- ---------------------------------------------------------------------------

namespace Pins

theorem acquirePin_moves (id : PinId) (dir : Direction) (pins : List PinDeclaration) :
    Moves mk fun pio => (mk pins pio).acquirePin id dir := by
  obtain ⟨pins', g, hg, hpins⟩ := PinDeclaration.withPinDeclaration_moves id dir (·.acquire_moves id) pins
  exact ⟨pins', g, hg, fun pio => by simp only [acquirePin, hpins]⟩

theorem releasePin_moves (id : PinId) (dir : Direction) (pins : List PinDeclaration) :
    Moves mk fun pio => (mk pins pio).releasePin id dir := by
  obtain ⟨pins', g, hg, hpins⟩ := PinDeclaration.withPinDeclaration_moves id dir (·.release_moves id) pins
  exact ⟨pins', g, hg, fun pio => by simp only [releasePin, hpins]⟩

theorem reassign_moves (s : Session) (new : Option PinId) (pins : List PinDeclaration) :
    Moves mk fun pio => (mk pins pio).reassign s new := by
  obtain ⟨kind, label, assigned⟩ := s
  by_cases h : assigned = new
  · exact ⟨pins, _, .id, fun pio => if_pos h⟩
  · have hchanged (pio : Registers) : (mk pins pio).reassign ⟨kind, label, assigned⟩ new = _ := if_neg h
    simp only [hchanged]
    have hacquire (id : PinId) := acquirePin_moves id kind.direction
    have hrelease (id : PinId) := releasePin_moves id kind.direction
    cases assigned with
    | none =>
      cases new with
      | none => exact absurd rfl h
      | some id => exact hacquire id pins
    | some old =>
      cases new with
      | none => exact hrelease old pins
      | some id => exact (hrelease old pins).comp (h := (·.acquirePin id kind.direction)) (hacquire id)

/-- Sessions and declarations beside the registers. -/
def both (x : List Session × List PinDeclaration) (pio : Registers) : List Session × Pins := (x.1, ⟨x.2, pio⟩)

theorem updateAssignments_drives (config : Config) (kind : SessionKind) (sessions : List Session)
    (pins : List PinDeclaration) : Drives both fun pio => updateAssignments config kind sessions ⟨pins, pio⟩ := by
  induction sessions generalizing pins with
  | nil => exact .inr ⟨([], pins), _, .id, fun _ => rfl⟩
  | cons s sessions ih =>
    by_cases hkind : s.kind = kind
    · have hassigned (pio : Registers) : (mk pins pio).assignedPin config s.label kind.direction =
          (mk pins .disabled).assignedPin config s.label kind.direction := rfl
      cases hpin : (mk pins .disabled).assignedPin config s.label kind.direction with
      | error e =>
        refine .inl ⟨e, fun pio => ?_⟩
        simp only [updateAssignments, hkind, if_true, hassigned, hpin]
      | ok new =>
        obtain ⟨pins', g, hg, hreassign⟩ := reassign_moves s new pins
        have heq : (fun pio => updateAssignments config kind (s :: sessions) ⟨pins, pio⟩) = fun pio =>
            (updateAssignments config kind sessions ⟨pins', g pio⟩).map
              fun x => ({ s with assigned := new } :: x.1, x.2) := by
          funext pio
          simp only [updateAssignments, hkind, if_true, hassigned, hpin, hreassign]
        rw [heq]
        exact .after hg ((ih pins').map (fun x => ({ s with assigned := new } :: x.1, x.2)) fun _ _ => rfl)
    · have heq : (fun pio => updateAssignments config kind (s :: sessions) ⟨pins, pio⟩) = fun pio =>
          (updateAssignments config kind sessions ⟨pins, pio⟩).map fun x => (s :: x.1, x.2) := by
        funext pio
        simp only [updateAssignments, hkind, if_false]
      rw [heq]
      exact (ih pins).map (fun x => (s :: x.1, x.2)) fun _ _ => rfl

end Pins

-- ---------------------------------------------------------------------------
-- Events
-- ---------------------------------------------------------------------------

namespace Main

/-- The driver with other registers. -/
def withPio (m : Main) (pio : Registers) : Main := { m with pio }

theorem updateSessions_drives (config : Config) (pins : List PinDeclaration) (sessions : List Session) :
    Drives withPio fun pio => updateSessions config ⟨pins, pio⟩ sessions := by
  have hroot (kind : SessionKind) (x : List Session × List PinDeclaration) :
      Drives Pins.both fun pio => (Pins.both x pio).2.updateAssignments config kind (Pins.both x pio).1 :=
    Pins.updateAssignments_drives config kind x.1 x.2
  refine .bind (hroot .pinState (sessions, pins)) fun x => .bind (hroot .pinControl x) fun x =>
    .bind (hroot .irq x) fun x => ?_
  exact .inr ⟨{ pins := x.2, pio := .disabled, config, sessions := x.1 }, _, .id, fun _ => rfl⟩

theorem updatePins_drives (fmt : Formats) (m : Main) (config : Config) :
    Drives Pins.mk fun pio => (m.withPio pio).updatePins fmt config := by
  obtain ⟨e, he⟩ | ⟨pins, g, hg, hpins⟩ := PinDeclaration.model_drives fmt config.nodes m.pins
  · exact .inl ⟨.exception e, fun pio => by simp only [updatePins, withPio, he]⟩
  · exact .inr ⟨pins, g, hg, fun pio => by simp only [updatePins, withPio, hpins]⟩

theorem createSession_drives (m : Main) (kind : SessionKind) (label : Text) :
    Drives withPio fun pio => (m.withPio pio).createSession kind label := by
  have hassigned (pio : Registers) : (m.withPio pio).assignedPin m.config label kind.direction =
      m.assignedPin m.config label kind.direction := rfl
  cases hpin : m.assignedPin m.config label kind.direction with
  | error e => exact .inl ⟨e, fun pio => congrArg (· >>= _) ((hassigned pio).trans hpin)⟩
  | ok new =>
    cases new with
    | none => exact .inr ⟨m, _, .id, fun pio => congrArg (· >>= _) ((hassigned pio).trans hpin)⟩
    | some id =>
      obtain ⟨pins, g, hg, hacquire⟩ := Pins.acquirePin_moves id kind.direction m.pins
      let with_session (p : Pins) : Main :=
        { m with toPins := p, sessions := m.sessions ++ [{ kind, label, assigned := some id }] }
      refine .inr ⟨with_session ⟨pins, m.pio⟩, g, hg, fun pio => ?_⟩
      exact (congrArg (· >>= _) ((hassigned pio).trans hpin)).trans
        (congrArg (fun p => Except.ok (with_session p)) (hacquire pio))

theorem closeSession_moves (m : Main) (n : Nat) : Moves withPio fun pio => (m.withPio pio).closeSession n := by
  cases hs : m.sessions[n]? with
  | none => exact ⟨m, _, .id, fun pio => by simp only [closeSession, withPio, hs]⟩
  | some s =>
    cases hid : s.assigned with
    | none =>
      refine ⟨{ m with sessions := m.sessions.eraseIdx n }, _, .id, fun pio => ?_⟩
      simp only [closeSession, withPio, hs, hid]
    | some id =>
      obtain ⟨pins, g, hg, hrelease⟩ := Pins.releasePin_moves id s.kind.direction m.pins
      refine ⟨{ m with pins, sessions := m.sessions.eraseIdx n }, g, hg, fun pio => ?_⟩
      have hpins : (m.withPio pio).releasePin id s.kind.direction = ⟨pins, g pio⟩ := hrelease pio
      simp only [closeSession, withPio, hs, hid] at hpins ⊢
      rw [hpins]

theorem setState_moves (m : Main) (n : Nat) (level : Level) :
    Moves withPio fun pio => (m.withPio pio).setState n level := by
  by_cases h : ∃ label id, m.sessions[n]? = some ⟨.pinControl, label, some id⟩
  · obtain ⟨label, id, h⟩ := h
    exact ⟨m, _, .state id level, fun pio => by simp only [setState, withPio, h]⟩
  · refine ⟨m, _, .id, fun pio => ?_⟩
    show (m.withPio pio).setState n level = m.withPio pio
    unfold setState
    split
    · rename_i label id hs
      exact absurd ⟨label, id, hs⟩ h
    · rfl

theorem handle_drives (fmt : Formats) (m : Main) (e : Event) :
    Drives withPio fun pio => (m.withPio pio).handle fmt e := by
  cases e with
  | config config =>
    exact .bind (h := (updateSessions config · m.sessions)) (updatePins_drives fmt m config)
      fun pins => updateSessions_drives config pins m.sessions
  | request kind label => exact createSession_drives m kind label
  | close n => exact (closeSession_moves m n).drives
  | state n level => exact (setState_moves m n level).drives

end Main

-- ---------------------------------------------------------------------------
-- Runs
-- ---------------------------------------------------------------------------

/-- What happens to the driver. Interrupts of pins are enabled and disabled in between. -/
inductive Activity
  | event (e : Event)
  | irqEnabled (id : PinId) (enabled : Bool)

namespace Activity

/-- The driver behind an activity. -/
def perform (fmt : Formats) (r : Except Failure Main) : Activity → Except Failure Main
  | event e => (Main.step fmt r e).1
  | irqEnabled _ _ => r

/-- The pins interrupts are delivered for, behind an activity. -/
def delivered (d : PinId → Bool) : Activity → PinId → Bool
  | event _ => d
  | irqEnabled id enabled => if id.physical ∧ id.bank.hasIrqRegs then Function.update d id enabled else d

/-- One activity is a sequence of operations. -/
theorem operations (fmt : Formats) (m : Main) (a : Activity) :
    (∃ e, ∀ pio, perform fmt (.ok (m.withPio pio)) a = .error e) ∨
    ∃ (m' : Main) (ops : List Operation), ∀ c : Chip,
      perform fmt (.ok (m.withPio c.pins)) a = .ok (m'.withPio (applied ops c).pins) ∧
      (applied ops c).irqEnabled = delivered c.irqEnabled a := by
  cases a with
  | event e =>
    obtain ⟨f, hf⟩ | ⟨m', g, ⟨ops, hops⟩, hm'⟩ := Main.handle_drives fmt m e
    · exact .inl ⟨f, hf⟩
    · refine .inr ⟨m', ops, fun c => ?_⟩
      rw [hops]
      exact ⟨hm' _, rfl⟩
  | irqEnabled id enabled => exact .inr ⟨m, [.irqEnabled id enabled], fun c => ⟨rfl, rfl⟩⟩

end Activity

/-- After a failure nothing happens. -/
theorem perform_error (fmt : Formats) (f : Failure) (as : List Activity) :
    as.foldl (Activity.perform fmt) (.error f) = .error f := by
  induction as with
  | nil => rfl
  | cons a as ih => cases a <;> exact ih

/-- A run of the driver is a sequence of operations for each activity. They do not depend on what the
registers hold. After each activity the registers in the banks say of every pin what the driver has
made of it, and interrupts are delivered as requested last. No other bit has changed. -/
theorem banks_follow (fmt : Formats) (m : Main) (as : List Activity) : ∃ opss : List (List Operation),
    opss.length = as.length ∧ ∀ (io : Io) (k : Nat) (m' : Main),
      (as.take k).foldl (Activity.perform fmt) (.ok (m.withPio (chip io).pins)) = .ok m' →
      chip (io.writes (trace (opss.take k).flatten)) =
        ⟨m'.pio, (as.take k).foldl Activity.delivered (chip io).irqEnabled⟩ ∧
      ∀ a i, ¬ Covered a i → (io.writes (trace (opss.take k).flatten) a).getLsbD i = (io a).getLsbD i := by
  -- without the banks
  suffices h : ∃ opss : List (List Operation), opss.length = as.length ∧ ∀ (c : Chip) (k : Nat) (m' : Main),
      (as.take k).foldl (Activity.perform fmt) (.ok (m.withPio c.pins)) = .ok m' →
      applied (opss.take k).flatten c = ⟨m'.pio, (as.take k).foldl Activity.delivered c.irqEnabled⟩ by
    obtain ⟨opss, hlength, h⟩ := h
    refine ⟨opss, hlength, fun io k m' hm' => ⟨?_, fun a i => trace_outside _ io⟩⟩
    exact (chip_trace _ io).trans (h _ k m' hm')
  induction as generalizing m with
  | nil =>
    refine ⟨[], rfl, fun c k m' hm' => ?_⟩
    rw [List.take_nil] at hm'
    rw [List.take_nil, List.take_nil]
    cases hm'
    rfl
  | cons a as ih =>
    obtain ⟨f, hf⟩ | ⟨m₁, ops, hstep⟩ := Activity.operations fmt m a
    · refine ⟨List.replicate (as.length + 1) [], List.length_replicate, fun c k m' hm' => ?_⟩
      cases k with
      | zero =>
        cases hm'
        rfl
      | succ k =>
        rw [List.take_succ_cons, List.foldl_cons, hf, perform_error] at hm'
        cases hm'
    · obtain ⟨opss, hlength, hrest⟩ := ih m₁
      refine ⟨ops :: opss, congrArg (· + 1) hlength, fun c k m' hm' => ?_⟩
      cases k with
      | zero =>
        cases hm'
        rfl
      | succ k =>
        obtain ⟨hperform, hdelivered⟩ := hstep c
        rw [List.take_succ_cons, List.foldl_cons, hperform] at hm'
        rw [List.take_succ_cons, List.take_succ_cons, List.flatten_cons, List.foldl_cons, applied_append,
          ← hdelivered]
        exact hrest _ k m' hm'

/-- The registers before anything is written. -/
def Io.cleared : Io := fun _ => 0

/-- A pin of a new configuration is driven, and its interrupts are delivered once they are enabled. -/
theorem declared_pin_written : ∃ opss : List (List Operation),
    ((chip (Io.cleared.writes (trace opss.flatten))).pins Main.pinB1).cfg = .output ∧
    (chip (Io.cleared.writes (trace opss.flatten))).irqEnabled Main.pinB1 = true := by
  obtain ⟨opss, hlength, h⟩ := banks_follow plainFormats { pio := (chip .cleared).pins }
    [.event (.config (Main.declares "out" "a" (some "yes"))), .irqEnabled Main.pinB1 true]
  obtain ⟨hchip, -⟩ := h .cleared 2 _ rfl
  rw [List.take_of_length_le (show opss.length ≤ 2 from hlength.le)] at hchip
  refine ⟨opss, ?_⟩
  rw [hchip]
  exact ⟨rfl, rfl⟩

end Allwinner.Pio
