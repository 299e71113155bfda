import Allwinner.Pio.Laws

/-!
# Updates of the declarations

An update of the configuration that gets through leaves one declaration for each
node, and each declaration says what its node says. Hence what a session is
assigned follows from the configuration.
-/

namespace Allwinner.Pio

open Library (ListModel)
open Modem (Text)

variable {fmt : Formats}

namespace Node

/-- The pin a node declares. -/
def declaredId (fmt : Formats) (node : Node) : Option PinId :=
  match PinDeclaration.parse fmt node with
  | .ok (id, _) => some id
  | .error _ => none

def declaredAttr (fmt : Formats) (node : Node) : Attr :=
  match PinDeclaration.parse fmt node with
  | .ok (_, attr) => attr
  | .error _ => .disabled

def declared (fmt : Formats) (node : Node) : Name × Option PinId × Attr :=
  (Name.fromNode node, node.declaredId fmt, node.declaredAttr fmt)

theorem declaredId_eq_some {node : Node} {id : PinId} :
    node.declaredId fmt = some id ↔ PinDeclaration.parse fmt node = .ok (id, node.declaredAttr fmt) := by
  unfold declaredId declaredAttr
  cases PinDeclaration.parse fmt node with
  | ok r => simp [Prod.ext_iff]
  | error e => simp

/-- What the attributes of a declared pin are read from. -/
theorem attr_parts {node : Node} {id : PinId} (h : node.declaredId fmt = some id) :
    Function.fromNode fmt node = .ok (node.declaredAttr fmt).function ∧
      (node.declaredAttr fmt).outOnDemand = node.default.isNone ∧
      (node.declaredAttr fmt).defaultState = Attr.defaultStateFromNode fmt node := by
  have hparse := declaredId_eq_some.mp h
  generalize node.declaredAttr fmt = attr at hparse ⊢
  unfold PinDeclaration.parse Attr.fromNode at hparse
  cases hid : PinId.fromNode fmt node with
  | error e => simp [hid, bind, Except.bind] at hparse
  | ok id' =>
    cases hpull : Pull.fromNode node with
    | error e => simp [hid, hpull, bind, Except.bind] at hparse
    | ok pull =>
      cases hfun : Function.fromNode fmt node with
      | error e => simp [hid, hpull, hfun, bind, Except.bind] at hparse
      | ok f =>
        cases htrigger : IrqTrigger.fromNode node with
        | error e => simp [hid, hpull, hfun, htrigger, bind, Except.bind] at hparse
        | ok trigger =>
          simp only [hid, hpull, hfun, htrigger, bind, Except.bind, pure, Except.pure, Except.ok.injEq,
            Prod.mk.injEq] at hparse
          obtain ⟨-, rfl⟩ := hparse
          exact ⟨rfl, rfl, rfl⟩

end Node

-- ---------------------------------------------------------------------------
-- One declaration
-- ---------------------------------------------------------------------------

namespace PinDeclaration

variable {pin : PinDeclaration} {node : Node} {existing : List PinDeclaration} {nodes : List Node}

/-- The declaration takes over what the node says. -/
def declare (fmt : Formats) (pin : PinDeclaration) (node : Node) : PinDeclaration :=
  { pin with id := node.declaredId fmt, attr := node.declaredAttr fmt }

theorem updateFromNode_fst (pio : Registers) : (pin.updateFromNode fmt node pio).1 = pin.declare fmt node := by
  unfold updateFromNode declare Node.declaredId Node.declaredAttr
  cases parse fmt node with
  | ok r => rfl
  | error e => rfl

theorem agreeing_iff : (model fmt).agrees node pin = true ↔ typeMatches node = true ∧
    pin.name = Name.fromNode node ∧
    ∃ f, Function.fromNode fmt node = .ok f ∧ pin.attr.function.direction = f.direction := by
  unfold ListModel.agrees model matchesNode
  dsimp only
  by_cases hm : (typeMatches node && decide (pin.name = Name.fromNode node)) = true
  · rw [if_pos hm]
    simp only [Bool.and_eq_true, decide_eq_true_eq] at hm
    cases Function.fromNode fmt node with
    | error e => simp [Except.map]
    | ok f => simp [Except.map, hm]
  · rw [if_neg hm]
    simp only [Bool.and_eq_true, decide_eq_true_eq, not_and] at hm
    simp only [Bool.false_eq_true, false_iff, not_and]
    exact fun ht hn => absurd hn (hm ht)

theorem name_of_mem_pairs {x : PinDeclaration × Node} (h : x ∈ (model fmt).pairs existing nodes) :
    x.1.name = Name.fromNode x.2 := by
  rcases ListModel.mem_pairs h with he | ⟨-, hagrees⟩
  · rw [he]
    rfl
  · exact (agreeing_iff.mp hagrees).2.1

end PinDeclaration

-- ---------------------------------------------------------------------------
-- The update
-- ---------------------------------------------------------------------------

namespace Main

variable {m m' : Main} {config : Config} {p : Pins}

/-- The declarations say what the nodes of the configuration say. -/
def Current (fmt : Formats) (m : Main) : Prop :=
  m.pins.map PinDeclaration.declared =
    (m.config.nodes.filter PinDeclaration.typeMatches).map (Node.declared fmt)

/-- The declarations and the registers after an update that gets through. -/
theorem updatePins_ok (h : m.updatePins fmt config = .ok p) :
    p.pins = ((PinDeclaration.model fmt).pairs m.pins config.nodes).map (fun x => x.1.declare fmt x.2) ∧
    p.pio = ((PinDeclaration.model fmt).left m.pins config.nodes).foldl (fun pio pin => pin.destroy pio)
      (((PinDeclaration.model fmt).pairs m.pins config.nodes).foldl
        (fun pio x => (x.1.updateFromNode fmt x.2 pio).2) m.pio) := by
  unfold updatePins at h
  cases hr : (PinDeclaration.model fmt).updateFromNode config.nodes m.pins m.pio with
  | error e => simp [hr] at h
  | ok r =>
    have := ListModel.updateFromNode_ok hr (f := PinDeclaration.declare fmt)
      fun pin node pio => PinDeclaration.updateFromNode_fst pio
    simp only [hr, Except.ok.injEq] at h
    subst h
    exact this

theorem declared_updatePins (h : m.updatePins fmt config = .ok p) : p.pins.map PinDeclaration.declared =
    (config.nodes.filter PinDeclaration.typeMatches).map (Node.declared fmt) := by
  have hsnd : ((PinDeclaration.model fmt).pairs m.pins config.nodes).map Prod.snd =
      config.nodes.filter PinDeclaration.typeMatches := ListModel.pairs_snd
  rw [(updatePins_ok h).1, ← hsnd, List.map_map, List.map_map]
  refine List.map_congr_left fun x hx => ?_
  have hname : x.1.name = Name.fromNode x.2 := PinDeclaration.name_of_mem_pairs hx
  simp [PinDeclaration.declared, PinDeclaration.declare, Node.declared, hname]

theorem handleConfig_ok (h : m.handleConfig fmt config = .ok m') : ∃ p, m.updatePins fmt config = .ok p ∧
    updateSessions config p m.sessions = .ok m' := by
  unfold handleConfig at h
  cases hp : m.updatePins fmt config with
  | error e => simp [hp, bind, Except.bind] at h
  | ok p => exact ⟨p, rfl, by simpa [hp, bind, Except.bind] using h⟩

theorem current_handleConfig (h : m.handleConfig fmt config = .ok m') : m'.Current fmt := by
  obtain ⟨p, hp, hs⟩ := handleConfig_ok h
  obtain ⟨hconfig, halike, -⟩ := settled_updateSessions hs
  rw [Current, hconfig, ← declared_updatePins hp]
  exact halike

/-- How a request ends. -/
theorem createSession_ok {kind : SessionKind} {label : Text} (h : m.createSession kind label = .ok m') :
    (m.assignedPin m.config label kind.direction = .ok none ∧ m' = m) ∨
    ∃ id, m.assignedPin m.config label kind.direction = .ok (some id) ∧
      m' = { m with
        toPins := m.acquirePin id kind.direction
        sessions := m.sessions ++ [{ kind, label, assigned := some id }] } := by
  unfold createSession at h
  cases ha : m.assignedPin m.config label kind.direction with
  | error e => simp [ha, bind, Except.bind] at h
  | ok r =>
    cases r with
    | none =>
      simp only [ha, bind, Except.bind, pure, Except.pure, Except.ok.injEq] at h
      exact .inl ⟨rfl, h.symm⟩
    | some id =>
      simp only [ha, bind, Except.bind, pure, Except.pure, Except.ok.injEq] at h
      exact .inr ⟨id, rfl, h.symm⟩

theorem alike_closeSession (m : Main) (n : Nat) : m.Alike (m.closeSession n).toPins := by
  unfold closeSession
  split
  · exact .refl _
  · dsimp only
    split
    · exact Pins.alike_releasePin
    · exact .refl _

theorem config_closeSession (m : Main) (n : Nat) : (m.closeSession n).config = m.config := by
  unfold closeSession
  split <;> rfl

theorem sessions_closeSession (m : Main) (n : Nat) : (m.closeSession n).sessions = m.sessions.eraseIdx n := by
  unfold closeSession
  split
  · rename_i h
    exact (List.eraseIdx_of_length_le (List.getElem?_eq_none_iff.mp h)).symm
  · rfl

theorem setState_fields (m : Main) (n : Nat) (level : Level) : (m.setState n level).pins = m.pins ∧
    (m.setState n level).config = m.config ∧ (m.setState n level).sessions = m.sessions := by
  unfold setState
  split <;> exact ⟨rfl, rfl, rfl⟩

/-- A session other than a configuration update changes counts and registers only. -/
theorem alike_handle {e : Event} (h : m.handle fmt e = .ok m') (he : ∀ config, e ≠ .config config) :
    m.Alike m'.toPins ∧ m'.config = m.config := by
  cases e with
  | config config => exact absurd rfl (he config)
  | request kind label =>
    rcases createSession_ok h with ⟨-, rfl⟩ | ⟨id, -, rfl⟩
    · exact ⟨.refl _, rfl⟩
    · exact ⟨Pins.alike_acquirePin, rfl⟩
  | close n =>
    simp only [handle, Except.ok.injEq] at h
    subst h
    exact ⟨alike_closeSession m n, config_closeSession m n⟩
  | state n level =>
    simp only [handle, Except.ok.injEq] at h
    subst h
    obtain ⟨hpins, hconfig, -⟩ := setState_fields m n level
    exact ⟨congrArg (List.map PinDeclaration.declared) hpins, hconfig⟩

/-- Every event leaves the declarations as the configuration has them. -/
theorem Current.handle {e : Event} (hc : m.Current fmt) (h : m.handle fmt e = .ok m') : m'.Current fmt := by
  cases e with
  | config config => exact current_handleConfig h
  | _ =>
    obtain ⟨halike, hconfig⟩ := alike_handle h (by simp)
    rw [Current, hconfig, ← hc]
    exact halike

theorem settled_handle {e : Event} (hs : ∀ s ∈ m.sessions, Settled m.config m.toPins s)
    (h : m.handle fmt e = .ok m') : ∀ s ∈ m'.sessions, Settled m'.config m'.toPins s := by
  have hkeep : ∀ {s}, m.Alike m'.toPins → m'.config = m.config → Settled m.config m.toPins s →
      Settled m'.config m'.toPins s := by
    intro s halike hconfig hset
    rw [Settled, hconfig, halike.assignedPin]
    exact hset
  cases e with
  | config config =>
    obtain ⟨p, -, hu⟩ := handleConfig_ok h
    exact (settled_updateSessions hu).2.2.2
  | request kind label =>
    obtain ⟨halike, hconfig⟩ := alike_handle h (by simp)
    intro s hmem
    rcases createSession_ok h with ⟨-, rfl⟩ | ⟨id, ha, rfl⟩
    · exact hs s hmem
    · rcases List.mem_append.mp hmem with hmem | hmem
      · exact hkeep halike hconfig (hs s hmem)
      · obtain rfl := List.mem_singleton.mp hmem
        exact hkeep halike hconfig ha
  | close n =>
    obtain ⟨halike, hconfig⟩ := alike_handle h (by simp)
    simp only [Main.handle, Except.ok.injEq] at h
    intro s hmem
    rw [← h, sessions_closeSession] at hmem
    exact hkeep halike hconfig (hs s (List.mem_of_mem_eraseIdx hmem))
  | state n level =>
    obtain ⟨halike, hconfig⟩ := alike_handle h (by simp)
    simp only [Main.handle, Except.ok.injEq] at h
    intro s hmem
    rw [← h, (setState_fields m n level).2.2] at hmem
    exact hkeep halike hconfig (hs s hmem)

end Main

-- ---------------------------------------------------------------------------
-- What a session is assigned
-- ---------------------------------------------------------------------------

/-- The nodes that declare what the policy of a label asks for. -/
def Config.candidates (fmt : Formats) (config : Config) (label : Text) (dir : Direction) : List Node :=
  match config.policy label with
  | none => []
  | some pin => (config.nodes.filter PinDeclaration.typeMatches).filter fun node =>
      Name.fromNode node = attributeString 32 pin && (node.declaredAttr fmt).function.direction = dir

/-- The loop of `assigned_pin` finds the last of the declarations, unless one of them has no pin. -/
theorem lookup_eq {name : Name} {dir : Direction} {pins : List PinDeclaration} {nodes : List Node}
    (h : pins.map PinDeclaration.declared = nodes.map (Node.declared fmt)) (found : Option PinId) :
    let named := nodes.filter fun node =>
      Name.fromNode node = name && (node.declaredAttr fmt).function.direction = dir
    Pins.lookup name dir pins found =
      if ∀ node ∈ named, (node.declaredId fmt).isSome then
        .ok (match named.getLast? with
          | none => found
          | some node => node.declaredId fmt)
      else .error .dereference := by
  intro named
  induction nodes generalizing pins found with
  | nil =>
    obtain rfl : pins = [] := by simpa using h
    simp [named, Pins.lookup]
  | cons node nodes ih =>
    cases pins with
    | nil => simp at h
    | cons pin pins =>
      simp only [List.map_cons, List.cons.injEq, PinDeclaration.declared, Node.declared, Prod.mk.injEq] at h
      obtain ⟨⟨hname, hid, hattr⟩, hrest⟩ := h
      simp only [Pins.lookup, hname, hid, hattr]
      by_cases hm : Name.fromNode node = name ∧ (node.declaredAttr fmt).function.direction = dir
      · have hnamed : named = node :: nodes.filter fun node =>
            Name.fromNode node = name && (node.declaredAttr fmt).function.direction = dir := by
          simp [named, hm.1, hm.2]
        rw [if_pos hm, hnamed]
        cases hn : node.declaredId fmt with
        | none => simp [hn]
        | some id =>
          have hlast := ih hrest (some id)
          dsimp only at hlast ⊢
          rw [hlast]
          cases hl : (nodes.filter fun node =>
              Name.fromNode node = name && (node.declaredAttr fmt).function.direction = dir).getLast? with
          | none =>
            rw [List.getLast?_eq_none_iff] at hl
            simp [hl, hn]
          | some last => simp [List.getLast?_cons, hl, hn]
      · have hnamed : named = nodes.filter fun node =>
            Name.fromNode node = name && (node.declaredAttr fmt).function.direction = dir := by
          simp only [named, List.filter_cons, Bool.and_eq_true, decide_eq_true_eq, if_neg hm]
        rw [if_neg hm, hnamed]
        exact ih hrest found

/-- What a session is assigned follows from the configuration. -/
theorem assignedPin_eq {p : Pins} {config : Config} (h : p.pins.map PinDeclaration.declared =
    (config.nodes.filter PinDeclaration.typeMatches).map (Node.declared fmt)) (label : Text) (dir : Direction) :
    p.assignedPin config label dir =
      if ∀ node ∈ config.candidates fmt label dir, (node.declaredId fmt).isSome then
        .ok ((config.candidates fmt label dir).getLast?.bind (Node.declaredId fmt))
      else .error .dereference := by
  unfold Pins.assignedPin Config.candidates
  cases config.policy label with
  | none => simp
  | some pin =>
    dsimp only
    rw [lookup_eq h none]
    cases ((config.nodes.filter PinDeclaration.typeMatches).filter fun node =>
      Name.fromNode node = attributeString 32 pin &&
        (node.declaredAttr fmt).function.direction = dir).getLast? <;> rfl

end Allwinner.Pio
