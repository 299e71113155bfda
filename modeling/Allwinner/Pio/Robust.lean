import Allwinner.Pio.Update
import Mathlib.Data.List.Forall2

/-!
# Malformed declarations

What a configuration with missing or invalid values does to the driver. A
declaration is malformed if one of its values is missing or invalid; whether a bank
has a pin of that index is not asked.
-/

namespace Allwinner.Pio

open Library (ListModel System)
open Modem (Text)

variable {fmt : Formats}

-- ---------------------------------------------------------------------------
-- Well-formed nodes
-- ---------------------------------------------------------------------------

namespace Node

def bankNames : List Text := ["B", "C", "D", "E", "F", "G", "H", "L"].map (·.toList)

def pullNames : List Text := ["up", "down"].map (·.toList)

def triggerNames : List Text := ["rising", "falling", "high", "low", "edges"].map (·.toList)

/-- Bank and index are given, and what is given is valid. -/
structure WellFormed (fmt : Formats) (node : Node) : Prop where
  bank : ∃ t ∈ node.bank, t ∈ bankNames
  index : ∃ t ∈ node.index, (fmt.unsigned t).isSome
  pull : ∀ t ∈ node.pull, t ∈ pullNames
  irq : ∀ t ∈ node.irq, t ∈ triggerNames
  function : node.type = "select".toList → ∀ t ∈ node.function, fmt.unsigned t ∈ [2, 3, 4, 5, 7].map some

end Node

-- ---------------------------------------------------------------------------
-- Exceptions out of the update
-- ---------------------------------------------------------------------------

namespace PinDeclaration

variable {pin : PinDeclaration} {node : Node} {existing pins : List PinDeclaration} {nodes : List Node}
  {name : Name} {dir : Direction}

/-- The declaration has the name and direction. -/
def has (name : Name) (dir : Direction) (pin : PinDeclaration) : Bool :=
  pin.name = name && pin.attr.function.direction = dir

/-- The node names the name and direction. -/
def names (fmt : Formats) (name : Name) (dir : Direction) (node : Node) : Bool :=
  typeMatches node && Name.fromNode node = name && match Function.fromNode fmt node with
    | .ok f => f.direction = dir
    | .error _ => false

/-- A node has an invalid function, and its name is that of an existing declaration that is left when
its turn comes: of some direction, more declarations have the name than nodes ahead name it. -/
def Clashes (fmt : Formats) (pins : List PinDeclaration) (nodes : List Node) : Prop :=
  ∃ pre node post, nodes = pre ++ node :: post ∧ typeMatches node = true ∧
    (∃ e, Function.fromNode fmt node = .error e) ∧
    ∃ dir, pre.countP (names fmt (Name.fromNode node) dir) < pins.countP (has (Name.fromNode node) dir)

theorem has_of_agrees (h : (model fmt).agrees node pin = true) :
    has name dir pin = names fmt name dir node := by
  obtain ⟨htype, hname, f, hf, hdir⟩ := agreeing_iff.mp h
  simp [has, names, htype, hname, hf, hdir]

theorem agrees_of_has (hn : names fmt name dir node = true) (h : has name dir pin = true) :
    (model fmt).agrees node pin = true := by
  simp only [names, Bool.and_eq_true, decide_eq_true_eq] at hn
  obtain ⟨⟨htype, rfl⟩, hf⟩ := hn
  simp only [has, Bool.and_eq_true, decide_eq_true_eq] at h
  obtain ⟨hname, rfl⟩ := h
  cases hfun : Function.fromNode fmt node with
  | error e => simp [hfun] at hf
  | ok f =>
    simp only [hfun, decide_eq_true_eq] at hf
    exact agreeing_iff.mpr ⟨htype, hname, f, hfun, hf.symm⟩

/-- A node takes away one of the declarations it names, if there is one. -/
theorem countP_eraseP (existing : List PinDeclaration) (node : Node) :
    (existing.eraseP ((model fmt).agrees node)).countP (has name dir) =
      existing.countP (has name dir) - if names fmt name dir node then 1 else 0 := by
  induction existing with
  | nil => simp
  | cons pin pins ih =>
    by_cases ha : (model fmt).agrees node pin = true
    · rw [List.eraseP_cons_of_pos ha, List.countP_cons, has_of_agrees ha]
      omega
    · rw [List.eraseP_cons_of_neg ha, List.countP_cons, List.countP_cons, ih]
      by_cases hn : names fmt name dir node = true
      · have hnot : has name dir pin = false := by
          by_contra h
          exact ha (agrees_of_has hn (by simpa using h))
        simp [hnot]
      · simp [hn]

theorem countP_left (existing : List PinDeclaration) (nodes : List Node) :
    ((model fmt).left existing nodes).countP (has name dir) =
      existing.countP (has name dir) - nodes.countP (names fmt name dir) := by
  induction nodes generalizing existing with
  | nil => rfl
  | cons node nodes ih =>
    unfold ListModel.left
    rw [List.countP_cons]
    by_cases htype : typeMatches node = true
    · rw [if_pos (show (model fmt).typeMatches node = true from htype), ih, countP_eraseP]
      omega
    · have hnot : names fmt name dir node = false := by simp [names, htype]
      rw [if_neg (show ¬ (model fmt).typeMatches node = true from htype), ih]
      simp [hnot]

theorem exists_name_iff : (∃ pin ∈ pins, pin.name = name) ↔ ∃ dir, 0 < pins.countP (has name dir) := by
  simp only [List.countP_pos_iff, has, Bool.and_eq_true, decide_eq_true_eq]
  constructor
  · rintro ⟨pin, hpin, hname⟩
    exact ⟨_, pin, hpin, hname, rfl⟩
  · rintro ⟨dir, pin, hpin, hname, -⟩
    exact ⟨pin, hpin, hname⟩

theorem claim_error_iff (htype : typeMatches node = true) : (∃ e, (model fmt).claim node existing = .error e) ↔
    (∃ e, Function.fromNode fmt node = .error e) ∧ ∃ pin ∈ existing, pin.name = Name.fromNode node := by
  induction existing with
  | nil => simp [ListModel.claim]
  | cons pin pins ih =>
    have hmatch : (model fmt).matching pin node = if pin.name = Name.fromNode node then
        (Function.fromNode fmt node).map fun f => decide (pin.attr.function.direction = f.direction)
      else .ok false := by
      simp [model, matchesNode, htype]
    unfold ListModel.claim
    rw [hmatch]
    by_cases hname : pin.name = Name.fromNode node
    · rw [if_pos hname]
      cases hf : Function.fromNode fmt node with
      | error e => simp [Except.map, hname]
      | ok f =>
        rw [hf] at ih
        by_cases hdir : pin.attr.function.direction = f.direction
        · simp [Except.map, hdir]
        · cases hc : (model fmt).claim node pins <;> simp [hc, Except.map, hdir] at ih ⊢
    · rw [if_neg hname]
      cases hc : (model fmt).claim node pins <;> simpa [hc, Except.map, hname] using ih

/-- An exception escapes from the update exactly if a node clashes. -/
theorem updateFromNode_error_iff {pio : Registers} :
    (∃ e, (model fmt).updateFromNode nodes pins pio = .error e) ↔ Clashes fmt pins nodes := by
  rw [ListModel.updateFromNode_error_iff]
  constructor
  · rintro ⟨pre, node, post, rfl, htype, herr⟩
    obtain ⟨hfun, hleft⟩ := (claim_error_iff htype).mp herr
    obtain ⟨dir, hpos⟩ := exists_name_iff.mp hleft
    rw [countP_left] at hpos
    exact ⟨pre, node, post, rfl, htype, hfun, dir, by omega⟩
  · rintro ⟨pre, node, post, rfl, htype, hfun, dir, hlt⟩
    refine ⟨pre, node, post, rfl, htype, (claim_error_iff htype).mpr ⟨hfun, exists_name_iff.mpr ⟨dir, ?_⟩⟩⟩
    rw [countP_left]
    omega

end PinDeclaration

-- ---------------------------------------------------------------------------
-- What every call ends in
-- ---------------------------------------------------------------------------

/-- The last node that declares what a label asks for is well formed, or another one of the same pin,
and each of these nodes declares a pin. -/
def Config.Serves (fmt : Formats) (config : Config) (label : Text) (dir : Direction) : Prop :=
  (∀ node ∈ config.candidates fmt label dir, (node.declaredId fmt).isSome) ∧
  ∀ last ∈ (config.candidates fmt label dir).getLast?, ∃ node ∈ config.candidates fmt label dir,
    node.WellFormed fmt ∧ node.declaredId fmt = last.declaredId fmt

/-- A node that is not well formed is rejected, or reads as a disabled pin. -/
def Config.Rejects (fmt : Formats) (config : Config) : Prop :=
  ∀ node ∈ config.nodes, PinDeclaration.typeMatches node = true → ¬ node.WellFormed fmt →
    (node.declaredAttr fmt).function = .disable

namespace Main

variable {m m' : Main} {e : Event}

/-- `assigned_pin` denies the service or returns the pin of a well-formed declaration. -/
def Answers (fmt : Formats) (m : Main) (label : Text) (dir : Direction) : Prop :=
  ∃ r, m.assignedPin m.config label dir = .ok r ∧
    ∀ id ∈ r, ∃ node ∈ m.config.candidates fmt label dir, node.WellFormed fmt ∧ node.declaredId fmt = some id

/-- The declaration of a node that is not well formed is disabled. -/
def OnlyDisabled (fmt : Formats) (m : Main) : Prop :=
  List.Forall₂ (fun node pin => ¬ node.WellFormed fmt → pin.attr.function = .disable)
    (m.config.nodes.filter PinDeclaration.typeMatches) m.pins

/-- The event is handled, malformed declarations are disabled, and sessions are answered. -/
def Robust (fmt : Formats) (r : Except Failure Main) (e : Event) : Prop :=
  ∀ m, r = .ok m → ∃ m', m.handle fmt e = .ok m' ∧ m'.OnlyDisabled fmt ∧
    (∀ s ∈ m'.sessions, m'.Answers fmt s.label s.kind.direction) ∧
    ∀ kind label, e = .request kind label → m.Answers fmt label kind.direction

/-- What an event must bring along to be handled so. -/
def Harmless (fmt : Formats) (r : Except Failure Main) (e : Event) : Prop :=
  ∀ m, r = .ok m → match e with
    | .config config => ¬ PinDeclaration.Clashes fmt m.pins config.nodes ∧ config.Rejects fmt ∧
        ∀ s ∈ m.sessions, config.Serves fmt s.label s.kind.direction
    | .request kind label => m.config.Serves fmt label kind.direction
    | .close _ => True
    | .state _ _ => True

/-- The update of a configuration gets through: no node clashes, and each node that declares what a
session asks for declares a pin. -/
def Completes (fmt : Formats) (m : Main) (config : Config) : Prop :=
  ¬ PinDeclaration.Clashes fmt m.pins config.nodes ∧
  ∀ s ∈ m.sessions, ∀ node ∈ config.candidates fmt s.label s.kind.direction, (node.declaredId fmt).isSome

theorem handleConfig_isOk_iff {config : Config} :
    (∃ m', m.handleConfig fmt config = .ok m') ↔ m.Completes fmt config := by
  constructor
  · rintro ⟨m', hok⟩
    obtain ⟨p, hp, hu⟩ := handleConfig_ok hok
    obtain ⟨hconfig, halike, hlabels, hsettled⟩ := settled_updateSessions hu
    refine ⟨fun hclash => ?_, fun s hmem => ?_⟩
    · have herr : ∃ e, (PinDeclaration.model fmt).updateFromNode config.nodes m.pins m.pio = .error e :=
        PinDeclaration.updateFromNode_error_iff.mpr hclash
      obtain ⟨e, he⟩ := herr
      simp [updatePins, he] at hp
    · obtain ⟨s', hmem', hkind, hlabel⟩ := exists_asks hlabels hmem
      have hok' := hsettled s' hmem'
      rw [Settled, halike.assignedPin, hconfig, assignedPin_eq (declared_updatePins hp), hkind, hlabel] at hok'
      split at hok'
      · assumption
      · cases hok'
  · rintro ⟨hclash, hall⟩
    cases hp : (PinDeclaration.model fmt).updateFromNode config.nodes m.pins m.pio with
    | error e => exact absurd (PinDeclaration.updateFromNode_error_iff.mp ⟨e, hp⟩) hclash
    | ok r =>
      have hpins : m.updatePins fmt config = .ok ⟨r.1, r.2⟩ := by simp [updatePins, hp]
      have hanswered : Answered config ⟨r.1, r.2⟩ m.sessions := by
        intro s hmem
        rw [assignedPin_eq (declared_updatePins hpins), if_pos (hall s hmem)]
        exact ⟨_, rfl⟩
      obtain ⟨m', hu⟩ := updateSessions_isOk hanswered
      exact ⟨m', by simp [handleConfig, hpins, hu, bind, Except.bind]⟩

theorem answers_iff (hc : m.Current fmt) (label : Text) (dir : Direction) :
    m.Answers fmt label dir ↔ m.config.Serves fmt label dir := by
  unfold Answers Config.Serves
  rw [assignedPin_eq hc]
  by_cases hall : ∀ node ∈ m.config.candidates fmt label dir, (node.declaredId fmt).isSome
  · rw [if_pos hall]
    simp only [Except.ok.injEq, exists_eq_left']
    rw [and_iff_right hall]
    cases hlast : (m.config.candidates fmt label dir).getLast? with
    | none => simp
    | some last =>
      obtain ⟨id, hid⟩ := Option.isSome_iff_exists.mp (hall last (List.mem_of_getLast? hlast))
      simp [hid]
  · rw [if_neg hall]
    simp [hall]

theorem onlyDisabled_iff (hc : m.Current fmt) : m.OnlyDisabled fmt ↔ m.config.Rejects fmt := by
  have hall : m.config.Rejects fmt ↔ ∀ node ∈ m.config.nodes.filter PinDeclaration.typeMatches,
      ¬ node.WellFormed fmt → (node.declaredAttr fmt).function = .disable := by
    simp [Config.Rejects]
  rw [hall]
  unfold OnlyDisabled
  unfold Current at hc
  generalize m.config.nodes.filter PinDeclaration.typeMatches = nodes at hc ⊢
  generalize m.pins = pins at hc ⊢
  induction nodes generalizing pins with
  | nil =>
    obtain rfl : pins = [] := by simpa using hc
    simp
  | cons node nodes ih =>
    cases pins with
    | nil => simp at hc
    | cons pin pins =>
      obtain ⟨h, hrest⟩ := List.cons.inj hc
      have hattr : pin.attr = node.declaredAttr fmt := congrArg (·.2.2) h
      rw [List.forall₂_cons, List.forall_mem_cons, hattr]
      exact and_congr_right' (ih pins hrest)

theorem Answers.alike {label : Text} {dir : Direction} (h : m.Answers fmt label dir) (halike : m.Alike m'.toPins)
    (hconfig : m'.config = m.config) : m'.Answers fmt label dir := by
  unfold Answers
  rw [hconfig, halike.assignedPin]
  exact h

/-- A driver whose declarations are current handles an event as it should exactly if the event brings
along nothing harmful. -/
theorem robust_ok_iff (hc : m.Current fmt) (hd : m.OnlyDisabled fmt)
    (hs : ∀ s ∈ m.sessions, m.Answers fmt s.label s.kind.direction) :
    Robust fmt (.ok m) e ↔ Harmless fmt (.ok m) e := by
  have hkeep : ∀ {m'}, m.handle fmt e = .ok m' → (∀ config, e ≠ .config config) → m'.OnlyDisabled fmt := by
    intro m' hok he
    obtain ⟨-, hconfig⟩ := alike_handle hok he
    rw [onlyDisabled_iff (hc.handle hok), hconfig, ← onlyDisabled_iff hc]
    exact hd
  simp only [Robust, Harmless, Except.ok.injEq, forall_eq']
  cases e with
  | config config =>
    dsimp only
    constructor
    · rintro ⟨m', hok, hd', hs', -⟩
      have hc' := hc.handle hok
      obtain ⟨p, hp, hu⟩ := handleConfig_ok hok
      obtain ⟨hconfig, -, hlabels, -⟩ := settled_updateSessions hu
      refine ⟨(handleConfig_isOk_iff.mp ⟨m', hok⟩).1, ?_, fun s hmem => ?_⟩
      · rw [← hconfig]
        exact (onlyDisabled_iff hc').mp hd'
      · obtain ⟨s', hmem', hkind, hlabel⟩ := exists_asks hlabels hmem
        rw [← hconfig, ← hkind, ← hlabel]
        exact (answers_iff hc' _ _).mp (hs' s' hmem')
    · rintro ⟨hclash, hrejects, hserves⟩
      obtain ⟨m', hok⟩ : ∃ m', m.handle fmt (.config config) = .ok m' :=
        handleConfig_isOk_iff.mpr ⟨hclash, fun s hmem => (hserves s hmem).1⟩
      obtain ⟨p, hp, hu⟩ := handleConfig_ok hok
      obtain ⟨hconfig, -, hlabels, -⟩ := settled_updateSessions hu
      have hc' := hc.handle hok
      refine ⟨m', hok, (onlyDisabled_iff hc').mpr (hconfig ▸ hrejects), fun s hmem => ?_, by simp⟩
      rw [answers_iff hc', hconfig]
      obtain ⟨s', hmem', hkind, hlabel⟩ := exists_asks hlabels.symm hmem
      rw [← hkind, ← hlabel]
      exact hserves s' hmem'
  | request kind label =>
    dsimp only
    constructor
    · rintro ⟨m', -, -, -, ha⟩
      exact (answers_iff hc _ _).mp (ha kind label rfl)
    · intro hserves
      have ha : m.Answers fmt label kind.direction := (answers_iff hc _ _).mpr hserves
      obtain ⟨r, hr, -⟩ := id ha
      obtain ⟨m', hok⟩ : ∃ m', m.handle fmt (.request kind label) = .ok m' := by
        cases r <;> simp [handle, createSession, hr, bind, Except.bind, pure, Except.pure]
      obtain ⟨halike, hconfig⟩ := alike_handle hok (by simp)
      refine ⟨m', hok, hkeep hok (by simp), fun s hmem => ?_, ?_⟩
      · rcases createSession_ok hok with ⟨-, rfl⟩ | ⟨id, -, rfl⟩
        · exact hs s hmem
        · rcases List.mem_append.mp hmem with hmem | hmem
          · exact (hs s hmem).alike halike hconfig
          · obtain rfl := List.mem_singleton.mp hmem
            exact ha.alike halike hconfig
      · rintro kind label ⟨⟩
        exact ha
  | close n =>
    have hok : m.handle fmt (.close n) = .ok (m.closeSession n) := rfl
    obtain ⟨halike, hconfig⟩ := alike_handle hok (by simp)
    refine iff_of_true ⟨_, hok, hkeep hok (by simp), fun s hmem => ?_, by simp⟩ trivial
    rw [sessions_closeSession] at hmem
    exact (hs s (List.mem_of_mem_eraseIdx hmem)).alike halike hconfig
  | state n level =>
    have hok : m.handle fmt (.state n level) = .ok (m.setState n level) := rfl
    obtain ⟨halike, hconfig⟩ := alike_handle hok (by simp)
    refine iff_of_true ⟨_, hok, hkeep hok (by simp), fun s hmem => ?_, by simp⟩ trivial
    rw [(setState_fields m n level).2.2] at hmem
    exact (hs s hmem).alike halike hconfig

/-- In every run all events are handled as they should exactly if none brings along anything
harmful. -/
theorem robust_iff (fmt : Formats) (pio : Registers) (es : List Event) :
    (system fmt).Along (Robust fmt) (init pio) es ↔ (system fmt).Along (Harmless fmt) (init pio) es := by
  refine System.along_congr (I := fun r => ∀ m, r = .ok m → m.Current fmt ∧ m.OnlyDisabled fmt ∧
    ∀ s ∈ m.sessions, m.Answers fmt s.label s.kind.direction) ?_ ?_ ?_
  · rintro (f | m) e hI
    · simp [Robust, Harmless]
    · obtain ⟨hc, hd, hs⟩ := hI m rfl
      exact robust_ok_iff hc hd hs
  · rintro (f | m) e hI hrobust m' hnext
    · cases hnext
    · obtain ⟨hc, -, -⟩ := hI m rfl
      obtain ⟨m'', hok, hd', hs', -⟩ := hrobust m rfl
      have hstep : m.handle fmt e = .ok m' := hnext
      obtain rfl : m'' = m' := by simpa [hok] using hstep
      exact ⟨hc.handle hok, hd', hs'⟩
  · rintro m ⟨⟩
    exact ⟨rfl, .nil, by simp⟩

/-- The component survives a run whose events are handled as they should. -/
theorem survives {es : List Event} (h : (system fmt).Along (Robust fmt) (.ok m) es) :
    ((system fmt).run (.ok m) es).isOk = true := by
  induction es generalizing m with
  | nil => rfl
  | cons e es ih =>
    obtain ⟨m', hok, -⟩ := h.1 m rfl
    have hnext : (system fmt).next (.ok m) e = .ok m' := hok
    rw [System.run_cons, hnext]
    exact ih (hnext ▸ h.2)

/-- An input that becomes a pin of an unknown function. -/
def clashing : List Event :=
  [.config { nodes := [{ type := "in".toList, name := some "a".toList, bank := some "B".toList,
                         index := some "1".toList }] },
   .config { nodes := [{ type := "select".toList, name := some "a".toList, bank := some "B".toList,
                         index := some "1".toList, function := some "9".toList }] }]

/-- A session asks for an input of an unknown bank. -/
def unbanked : List Event :=
  [.config { nodes := [{ type := "in".toList, name := some "a".toList, bank := some "Z".toList,
                         index := some "1".toList }]
             policy := fun _ => some (some "a".toList) },
   .request .pinState "label".toList]

/-- An exception escapes from the update, and the pin of a malformed declaration is dereferenced. -/
theorem not_robust : ¬ (∀ es, (system plainFormats).Along (Robust plainFormats) start es) ∧
    (system plainFormats).run start clashing = .error (.exception .function) ∧
    (system plainFormats).run start unbanked = .error .dereference := by
  have hclash : (system plainFormats).run start clashing = .error (.exception .function) := by rfl
  have hderef : (system plainFormats).run start unbanked = .error .dereference := by rfl
  refine ⟨fun h => ?_, hclash, hderef⟩
  have hok : ((system plainFormats).run start clashing).isOk = true := survives (h clashing)
  rw [hclash] at hok
  cases hok

end Main

end Allwinner.Pio
