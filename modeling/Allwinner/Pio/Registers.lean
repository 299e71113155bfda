import Allwinner.Pio.Counts

/-!
# Registers and configuration

What the registers of a pin hold after an update of the configuration, compared to a
driver that starts with this configuration. The nodes program their pins one after
the other, and declarations that move away or are left over disable the pin they
had, also if another node has programmed it by then.
-/

namespace Allwinner.Pio

open Library (ListModel System)
open Modem (Text)

variable {fmt : Formats} {id : PinId} {bank : Bank} {r : PinRegs}

-- ---------------------------------------------------------------------------
-- An update at one pin
-- ---------------------------------------------------------------------------

namespace PinRegs

/-- What a declaration without sessions makes of the registers of its pin. -/
def programmed (bank : Bank) (attr : Attr) (r : PinRegs) : PinRegs :=
  if attr.output && attr.outOnDemand then r
  else
    let r := r.configure bank attr
    if attr.output then r.state attr.defaultState else r

/-- The registers hold the same but for the level. -/
structure Agree (bank : Bank) (r r' : PinRegs) : Prop where
  cfg : r.cfg = r'.cfg
  pull : r.pull = r'.pull
  irqTrigger : bank.hasIrqRegs = true → r.irqTrigger = r'.irqTrigger

theorem Disabled.agree {r' : PinRegs} (h : r.Disabled bank) (h' : r'.Disabled bank) : r.Agree bank r' :=
  ⟨h.cfg.trans h'.cfg.symm, h.pull.trans h'.pull.symm,
    fun hb => (h.irqTrigger hb).trans (h'.irqTrigger hb).symm⟩

theorem agree_configure (bank : Bank) (attr : Attr) (r r' : PinRegs) :
    (r.configure bank attr).Agree bank (r'.configure bank attr) :=
  ⟨rfl, rfl, fun hb => by simp [configure, hb]⟩

theorem Agree.state {r' : PinRegs} (h : r.Agree bank r') (level : Level) :
    (r.state level).Agree bank (r'.state level) := by
  cases level <;> exact ⟨rfl, h.pull, h.irqTrigger⟩

theorem data_state (r r' : PinRegs) {level : Level} (h : level = .high ∨ level = .low) :
    (r.state level).data = (r'.state level).data := by
  rcases h with rfl | rfl <;> rfl

theorem state_state (r : PinRegs) (level : Level) : (r.state level).state level = r.state level := by
  cases level <;> rfl

end PinRegs

namespace PinDeclaration

variable {pin : PinDeclaration} {node : Node}

/-- What a node makes of the registers of a pin, for the declaration it takes. -/
def visited (fmt : Formats) (id : PinId) (r : PinRegs) (x : PinDeclaration × Node) : PinRegs :=
  if x.2.declaredId fmt = some id then
    let attr := x.2.declaredAttr fmt
    let r := if !(attr.output && attr.outOnDemand) then r.configure id.bank attr else r
    if x.1.refCount = 0 ∧ (attr.output && !attr.outOnDemand) = true then r.state attr.defaultState else r
  else if x.1.id = some id then r.configure id.bank .disabled
  else r

/-- What the end of a declaration makes of the registers of a pin. -/
def destroyed (id : PinId) (r : PinRegs) (pin : PinDeclaration) : PinRegs :=
  if pin.id = some id then r.configure id.bank .disabled else r

theorem configure_at (pio : Registers) (hphys : id.physical = true) (id' : PinId) (attr : Attr) :
    pio.configure id' attr id = if id' = id then (pio id).configure id.bank attr else pio id := by
  split
  · rename_i h
    subst h
    exact Registers.write_self hphys _
  · rename_i h
    exact Registers.write_of_ne (Ne.symm h) _

theorem state_at (pio : Registers) (hphys : id.physical = true) (id' : PinId) (level : Level) :
    pio.state id' level id = if id' = id then (pio id).state level else pio id := by
  split
  · rename_i h
    subst h
    exact Registers.write_self hphys _
  · rename_i h
    exact Registers.write_of_ne (Ne.symm h) _

theorem reset_at (pio : Registers) (hphys : id.physical = true) : pin.reset pio id = destroyed id (pio id) pin := by
  unfold reset destroyed
  cases pin.id with
  | none => rfl
  | some id' => simp [configure_at pio hphys]

theorem updateFromNode_at (pio : Registers) (hphys : id.physical = true) :
    (pin.updateFromNode fmt node pio).2 id = visited fmt id (pio id) (pin, node) := by
  unfold updateFromNode visited Node.declaredId Node.declaredAttr
  cases parse fmt node with
  | error e => simpa [destroyed] using reset_at pio hphys
  | ok x =>
    obtain ⟨newId, attr⟩ := x
    dsimp only
    set pio' := if (pin.id.any (· ≠ newId)) = true then pin.reset pio else pio with hpio'
    have hreset : pio' id = if newId = id then pio id else destroyed id (pio id) pin := by
      have hat : pin.reset pio id = destroyed id (pio id) pin := reset_at pio hphys
      rw [hpio']
      cases hid : pin.id with
      | none => simp [destroyed, hid]
      | some id' =>
        by_cases hchanged : id' = newId
        · subst hchanged
          by_cases hsame : id' = id <;> simp [destroyed, hid, hsame]
        · by_cases hnew : newId = id
          · subst hnew
            simp [hchanged, hat, destroyed, hid]
          · simp [hchanged, hnew, hat]
    by_cases hnew : newId = id
    · subst hnew
      simp only [if_true] at hreset
      simp only [if_true]
      split <;> split <;> simp [configure_at _ hphys, state_at _ hphys, hreset]
    · simp only [hnew, if_false] at hreset
      simp only [Option.some.injEq, hnew, if_false]
      rw [← destroyed, ← hreset]
      split <;> split <;> simp [configure_at _ hphys, state_at _ hphys, hnew]

end PinDeclaration

theorem foldl_at {α : Type} {f : Registers → α → Registers} {g : PinRegs → α → PinRegs}
    (h : ∀ pio x, f pio x id = g (pio id) x) (l : List α) (pio : Registers) :
    l.foldl f pio id = l.foldl g (pio id) := by
  induction l generalizing pio with
  | nil => rfl
  | cons x l ih => rw [List.foldl_cons, List.foldl_cons, ih, h]

/-- The registers of a pin after an update of the declarations. -/
theorem updatePins_at {m : Main} {config : Config} {p : Pins} (h : m.updatePins fmt config = .ok p)
    (hphys : id.physical = true) :
    p.pio id = ((PinDeclaration.model fmt).left m.pins config.nodes).foldl (PinDeclaration.destroyed id)
      (((PinDeclaration.model fmt).pairs m.pins config.nodes).foldl (PinDeclaration.visited fmt id)
        (m.pio id)) := by
  have hdestroy : ∀ (pio : Registers) (pin : PinDeclaration),
      pin.destroy pio id = PinDeclaration.destroyed id (pio id) pin :=
    fun pio _ => PinDeclaration.reset_at pio hphys
  have hvisit : ∀ (pio : Registers) (x : PinDeclaration × Node),
      (x.1.updateFromNode fmt x.2 pio).2 id = PinDeclaration.visited fmt id (pio id) x :=
    fun pio _ => PinDeclaration.updateFromNode_at pio hphys
  rw [(Main.updatePins_ok h).2, foldl_at hdestroy, foldl_at hvisit]

-- ---------------------------------------------------------------------------
-- Pins that are disabled on the way
-- ---------------------------------------------------------------------------

section Cleared

variable {α : Type} {q : α → Prop} [DecidablePred q] {l : List α}

/-- The pin is disabled where `q` holds. -/
def cleared (bank : Bank) (q : α → Prop) [DecidablePred q] (r : PinRegs) (x : α) : PinRegs :=
  if q x then r.configure bank .disabled else r

theorem foldl_cleared_of_forall (h : ∀ x ∈ l, ¬ q x) (r : PinRegs) : l.foldl (cleared bank q) r = r := by
  induction l generalizing r with
  | nil => rfl
  | cons x l ih =>
    rw [List.foldl_cons, cleared, if_neg (h x (.head _))]
    exact ih (fun y hy => h y (.tail _ hy)) r

theorem disabled_foldl_cleared (h : (∃ x ∈ l, q x) ∨ r.Disabled bank) :
    (l.foldl (cleared bank q) r).Disabled bank := by
  induction l generalizing r with
  | nil => simpa using h
  | cons x l ih =>
    rw [List.foldl_cons, cleared]
    by_cases hx : q x
    · rw [if_pos hx]
      exact ih (.inr (PinRegs.disabled_configure bank r))
    · rw [if_neg hx]
      refine ih (h.imp_left ?_)
      rintro ⟨y, hy, hq⟩
      rcases List.mem_cons.mp hy with rfl | hy
      · exact absurd hq hx
      · exact ⟨y, hy, hq⟩

end Cleared

namespace PinDeclaration

variable {pins : List PinDeclaration} {l : List (PinDeclaration × Node)}

theorem foldl_destroyed (pins : List PinDeclaration) (r : PinRegs) :
    pins.foldl (destroyed id) r = pins.foldl (cleared id.bank (·.id = some id)) r := rfl

/-- Nodes that declare other pins disable the pin where their declarations had it. -/
theorem foldl_visited (h : ∀ x ∈ l, x.2.declaredId fmt ≠ some id) (r : PinRegs) :
    l.foldl (visited fmt id) r = l.foldl (cleared id.bank (·.1.id = some id)) r := by
  induction l generalizing r with
  | nil => rfl
  | cons x l ih =>
    rw [List.foldl_cons, List.foldl_cons, ih fun y hy => h y (.tail _ hy)]
    congr 1
    unfold visited cleared
    rw [if_neg (h x (.head _))]

end PinDeclaration

namespace Main

variable {m : Main} {config : Config} {p : Pins} {A B : List (PinDeclaration × Node)}
  {x : PinDeclaration × Node}

/-- A pin that no node declares is disabled, if it was or a declaration had it. -/
theorem disabled_of_undeclared (h : m.updatePins fmt config = .ok p) (hphys : id.physical = true)
    (hnone : ∀ x ∈ (PinDeclaration.model fmt).pairs m.pins config.nodes, x.2.declaredId fmt ≠ some id)
    (hm : (∀ pin ∈ m.pins, pin.id ≠ some id) → (m.pio id).Disabled id.bank) : (p.pio id).Disabled id.bank := by
  rw [updatePins_at h hphys, PinDeclaration.foldl_visited hnone, PinDeclaration.foldl_destroyed]
  by_cases hheld : ∃ pin ∈ m.pins, pin.id = some id
  · obtain ⟨pin, hpin, hid⟩ := hheld
    rcases (PinDeclaration.model fmt).mem_left_or_pairs hpin with hleft | ⟨x, hx, rfl⟩
    · exact disabled_foldl_cleared (.inl ⟨pin, hleft, hid⟩)
    · exact disabled_foldl_cleared (.inr (disabled_foldl_cleared (.inl ⟨x, hx, hid⟩)))
  · simp only [not_exists, not_and] at hheld
    exact disabled_foldl_cleared (.inr (disabled_foldl_cleared (.inr (hm hheld))))

/-- In an update of the configuration one pair of a declaration and its node declares the pin. -/
structure DeclaredBy (fmt : Formats) (m : Main) (config : Config) (id : PinId)
    (A : List (PinDeclaration × Node)) (x : PinDeclaration × Node) (B : List (PinDeclaration × Node)) : Prop where
  physical : id.physical = true
  pairs : (PinDeclaration.model fmt).pairs m.pins config.nodes = A ++ x :: B
  declared : x.2.declaredId fmt = some id
  before : ∀ y ∈ A, y.2.declaredId fmt ≠ some id
  behind : ∀ y ∈ B, y.2.declaredId fmt ≠ some id

/-- What an update leaves of a pin that one node declares. -/
theorem updatePins_declared (hx : DeclaredBy fmt m config id A x B) (h : m.updatePins fmt config = .ok p) :
    p.pio id = ((PinDeclaration.model fmt).left m.pins config.nodes).foldl
      (cleared id.bank (·.id = some id)) (B.foldl (cleared id.bank (·.1.id = some id))
        (PinDeclaration.visited fmt id (A.foldl (cleared id.bank (·.1.id = some id)) (m.pio id)) x)) := by
  rw [updatePins_at h hx.physical, hx.pairs, List.foldl_append, List.foldl_cons,
    PinDeclaration.foldl_visited hx.before, PinDeclaration.foldl_visited hx.behind, PinDeclaration.foldl_destroyed]

/-- The pin of an on-demand output is left alone by its node: it is disabled, if it was or another
declaration had it. -/
theorem disabled_of_onDemand (hx : DeclaredBy fmt m config id A x B) (h : m.updatePins fmt config = .ok p)
    (hdemand : ((x.2.declaredAttr fmt).output && (x.2.declaredAttr fmt).outOnDemand) = true)
    (hm : (∀ pin ∈ m.pins, pin.id = some id → pin = x.1) → (m.pio id).Disabled id.bank) :
    (p.pio id).Disabled id.bank := by
  rw [updatePins_declared hx h]
  have hvisit : ∀ r, PinDeclaration.visited fmt id r x = r := by
    intro r
    simp only [Bool.and_eq_true] at hdemand
    simp [PinDeclaration.visited, hx.declared, hdemand]
  rw [hvisit]
  by_cases hheld : ∃ pin ∈ m.pins, pin.id = some id ∧ pin ≠ x.1
  · obtain ⟨pin, hpin, hid, hne⟩ := hheld
    rcases (PinDeclaration.model fmt).mem_left_or_pairs hpin with hleft | ⟨y, hy, rfl⟩
    · exact disabled_foldl_cleared (.inl ⟨pin, hleft, hid⟩)
    · rw [hx.pairs] at hy
      rcases List.mem_append.mp hy with hy | hy
      · exact disabled_foldl_cleared (.inr (disabled_foldl_cleared
          (.inr (disabled_foldl_cleared (.inl ⟨y, hy, hid⟩)))))
      · rcases List.mem_cons.mp hy with rfl | hy
        · exact absurd rfl hne
        · exact disabled_foldl_cleared (.inr (disabled_foldl_cleared (.inl ⟨y, hy, hid⟩)))
  · have hsame : ∀ pin ∈ m.pins, pin.id = some id → pin = x.1 := by
      intro pin hpin hid
      by_contra hne
      exact hheld ⟨pin, hpin, hid, hne⟩
    exact disabled_foldl_cleared (.inr (disabled_foldl_cleared (.inr (disabled_foldl_cleared (.inr (hm hsame))))))

/-- A pin that its node configures at once is left as configured, if no declaration that goes on or ends
after it had the pin, or if it is to be disabled anyway. -/
theorem agree_of_configured (hx : DeclaredBy fmt m config id A x B) (h : m.updatePins fmt config = .ok p)
    (hdemand : ((x.2.declaredAttr fmt).output && (x.2.declaredAttr fmt).outOnDemand) = false)
    (hlater : (∀ y ∈ B, y.1.id ≠ some id) ∧
      ∀ pin ∈ (PinDeclaration.model fmt).left m.pins config.nodes, pin.id ≠ some id) :
    ∃ r : PinRegs, p.pio id = if x.1.refCount = 0 ∧ (x.2.declaredAttr fmt).output = true then
        (r.configure id.bank (x.2.declaredAttr fmt)).state (x.2.declaredAttr fmt).defaultState
      else r.configure id.bank (x.2.declaredAttr fmt) := by
  rw [updatePins_declared hx h, foldl_cleared_of_forall hlater.1, foldl_cleared_of_forall hlater.2]
  refine ⟨A.foldl (cleared id.bank (·.1.id = some id)) (m.pio id), ?_⟩
  have hout : ((x.2.declaredAttr fmt).output && !(x.2.declaredAttr fmt).outOnDemand) =
      (x.2.declaredAttr fmt).output := by
    cases ho : (x.2.declaredAttr fmt).output
    · rfl
    · simpa [ho] using hdemand
  simp only [PinDeclaration.visited, hx.declared, if_true, hdemand, Bool.not_false, hout]

theorem disabled_of_configured (hx : DeclaredBy fmt m config id A x B) (h : m.updatePins fmt config = .ok p)
    (hout : (x.2.declaredAttr fmt).output = false)
    (hdis : ∀ r : PinRegs, (r.configure id.bank (x.2.declaredAttr fmt)).Disabled id.bank) :
    (p.pio id).Disabled id.bank := by
  rw [updatePins_declared hx h]
  refine disabled_foldl_cleared (.inr (disabled_foldl_cleared (.inr ?_)))
  simpa [PinDeclaration.visited, hx.declared, hout] using hdis _

end Main

-- ---------------------------------------------------------------------------
-- A driver that starts with the configuration
-- ---------------------------------------------------------------------------

/-- The registers as programmed by a driver that starts with the configuration. -/
def freshly (fmt : Formats) (config : Config) : Registers :=
  match (Main.system fmt).run Main.start [.config config] with
  | .ok m => m.pio
  | .error _ => .disabled

namespace Main

theorem freshly_eq (fmt : Formats) (config : Config) :
    ∃ p, ({ pio := .disabled } : Main).updatePins fmt config = .ok p ∧ freshly fmt config = p.pio := by
  have hcompletes : ({ pio := .disabled } : Main).Completes fmt config := by
    refine ⟨?_, by simp⟩
    rintro ⟨pre, node, post, -, -, -, dir, hlt⟩
    simp at hlt
  obtain ⟨m', hok⟩ := handleConfig_isOk_iff.mpr hcompletes
  obtain ⟨p, hp, hu⟩ := handleConfig_ok hok
  refine ⟨p, hp, ?_⟩
  have hrun : (system fmt).run start [.config config] = .ok m' := hok
  have hpins : m' = { toPins := p, config, sessions := [] } := by
    simpa [updateSessions, Pins.updateAssignments, bind, Except.bind, pure, Except.pure] using hu.symm
  rw [freshly, hrun, hpins]

/-- A driver that starts with the configuration programs a pin as the one node that declares it says. -/
theorem freshly_declared {config : Config} {nodes₁ nodes₂ : List Node} {node : Node} (hphys : id.physical = true)
    (hnodes : config.nodes.filter PinDeclaration.typeMatches = nodes₁ ++ node :: nodes₂)
    (h₁ : ∀ n ∈ nodes₁, n.declaredId fmt ≠ some id) (h₂ : ∀ n ∈ nodes₂, n.declaredId fmt ≠ some id)
    (hid : node.declaredId fmt = some id) :
    freshly fmt config id = (Registers.disabled id).programmed id.bank (node.declaredAttr fmt) := by
  obtain ⟨p, hp, hfresh⟩ := freshly_eq fmt config
  set m : Main := { pio := .disabled } with hm
  have hsnd : ((PinDeclaration.model fmt).pairs m.pins config.nodes).map Prod.snd =
      nodes₁ ++ node :: nodes₂ := hnodes ▸ ListModel.pairs_snd
  obtain ⟨A, C, hpairs, hA, hC⟩ := List.map_eq_append_iff.mp hsnd
  obtain ⟨x, B, rfl, rfl, hB⟩ := List.map_eq_cons_iff.mp hC
  have hnew : ∀ y ∈ A ++ x :: B, y.1 = { name := Name.fromNode y.2 } := by
    intro y hy
    rw [← hpairs] at hy
    rcases ListModel.mem_pairs hy with he | ⟨hmem, -⟩
    · exact he
    · cases hmem
  have hunheld : ∀ y ∈ A ++ x :: B, y.1.id ≠ some id := fun y hy => by simp [hnew y hy]
  have hleft : (PinDeclaration.model fmt).left m.pins config.nodes = [] :=
    List.sublist_nil.mp ListModel.left_sublist
  have hby : DeclaredBy fmt m config id A x B :=
    ⟨hphys, hpairs, hid, fun y hy => h₁ _ (hA ▸ List.mem_map_of_mem hy), fun y hy => h₂ _ (hB ▸ List.mem_map_of_mem hy)⟩
  rw [hfresh, updatePins_declared hby hp, hleft, foldl_cleared_of_forall fun y hy => hunheld y (by simp [hy]),
    foldl_cleared_of_forall fun y hy => hunheld y (by simp [hy])]
  have hcount : x.1.refCount = 0 := by rw [hnew x (by simp)]
  simp only [List.foldl_nil, PinDeclaration.visited, hid, if_true, hcount, true_and, PinRegs.programmed, hm]
  cases (x.2.declaredAttr fmt).output <;> cases (x.2.declaredAttr fmt).outOnDemand <;> rfl

theorem freshly_undeclared {config : Config} (hphys : id.physical = true)
    (hnone : ∀ n ∈ config.nodes.filter PinDeclaration.typeMatches, n.declaredId fmt ≠ some id) :
    (freshly fmt config id).Disabled id.bank := by
  obtain ⟨p, hp, hfresh⟩ := freshly_eq fmt config
  rw [hfresh]
  refine disabled_of_undeclared hp hphys (fun x hx => hnone x.2 ?_) fun _ => ⟨rfl, rfl, fun _ => rfl⟩
  have hmem := List.mem_map_of_mem (f := Prod.snd) hx
  rwa [ListModel.pairs_snd] at hmem

end Main

end Allwinner.Pio
