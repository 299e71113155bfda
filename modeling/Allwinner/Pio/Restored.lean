import Allwinner.Pio.Registers
import Mathlib.Data.List.Pairwise

/-!
# Registers over runs

What sessions that come and go leave of the registers of a pin, and that a pin no
session uses is programmed by the last configuration alone, in every run whose
updates spoil no pin.
-/

namespace Allwinner.Pio

open Library (ListModel System)
open Modem (Text)

variable {fmt : Formats} {id id' : PinId} {dir : Direction} {bank : Bank} {r : PinRegs}

-- ---------------------------------------------------------------------------
-- One call on behalf of a session
-- ---------------------------------------------------------------------------

namespace PinDeclaration

variable {pin : PinDeclaration}

theorem acquire_frame (h : id' ≠ id) (pio : Registers) : (pin.acquire id pio).2 id' = pio id' := by
  unfold acquire
  dsimp only
  split <;> split <;> (try split) <;> simp [Registers.configure, Registers.state, Registers.write_of_ne h]

theorem release_frame (h : id' ≠ id) (pio : Registers) : (pin.release id pio).2 id' = pio id' := by
  unfold release
  dsimp only
  split
  · rfl
  · dsimp only
    split <;> split <;> (try split) <;> simp [Registers.configure, Registers.state, Registers.write_of_ne h]

theorem retired_retired (bank : Bank) (r : PinRegs) (pin : PinDeclaration) :
    retired bank (retired bank r pin) pin = retired bank r pin := by
  have hconfigure : ∀ r : PinRegs, (r.configure bank .disabled).configure bank .disabled =
      r.configure bank .disabled := by
    intro r
    cases hb : bank.hasIrqRegs <;> simp [PinRegs.configure, hb]
  unfold retired
  split
  · split
    · exact hconfigure r
    · exact PinRegs.state_state r _
  · split
    · exact hconfigure r
    · rfl

theorem retired_congr {pin' : PinDeclaration} (h : pin'.declared = pin.declared) :
    retired bank r pin' = retired bank r pin := by
  have hattr : pin'.attr = pin.attr := congrArg (·.2.2) h
  simp [retired, hattr]

end PinDeclaration

theorem withPinDeclaration_frame {fn : PinDeclaration → Registers → PinDeclaration × Registers}
    (hfn : ∀ pin pio, (fn pin pio).2 id = pio id) (pins : List PinDeclaration) (pio : Registers) :
    (withPinDeclaration id' dir fn pins pio).2 id = pio id := by
  induction pins generalizing pio with
  | nil => rfl
  | cons pin pins ih =>
    simp only [withPinDeclaration]
    split
    · rw [ih, hfn]
    · exact ih pio

/-- Only the declarations of the pin have an effect. -/
theorem withPinDeclaration_none {fn : PinDeclaration → Registers → PinDeclaration × Registers}
    {pins : List PinDeclaration} (h : ∀ pin ∈ pins, pin.id ≠ some id) (pio : Registers) :
    (withPinDeclaration id dir fn pins pio).2 = pio := by
  induction pins generalizing pio with
  | nil => rfl
  | cons pin pins ih =>
    have hm : pin.matchesPin id dir = false := by simp [PinDeclaration.matchesPin, h pin (.head _)]
    simp only [withPinDeclaration, hm, Bool.false_eq_true, if_false]
    exact ih (fun pin' hpin' => h pin' (.tail _ hpin')) pio

theorem withPinDeclaration_one {fn : PinDeclaration → Registers → PinDeclaration × Registers}
    {A B : List PinDeclaration} {pin : PinDeclaration} (hA : ∀ pin ∈ A, pin.id ≠ some id)
    (hB : ∀ pin ∈ B, pin.id ≠ some id) (pio : Registers) :
    (withPinDeclaration id dir fn (A ++ pin :: B) pio).2 =
      if pin.matchesPin id dir then (fn pin pio).2 else pio := by
  induction A generalizing pio with
  | nil =>
    simp only [List.nil_append, withPinDeclaration]
    rw [withPinDeclaration_none hB]
    split <;> rfl
  | cons pin' A ih =>
    have hm : pin'.matchesPin id dir = false := by simp [PinDeclaration.matchesPin, hA pin' (.head _)]
    simp only [List.cons_append, withPinDeclaration, hm, Bool.false_eq_true, if_false]
    exact ih (fun pin hpin => hA pin (.tail _ hpin)) pio

namespace Pins

variable {p : Pins} {s : Session} {new : Option PinId} {A B : List PinDeclaration} {pin : PinDeclaration}

theorem acquirePin_frame (h : id' ≠ id) : (p.acquirePin id dir).pio id' = p.pio id' :=
  withPinDeclaration_frame (fun _ pio => PinDeclaration.acquire_frame h pio) p.pins p.pio

theorem releasePin_frame (h : id' ≠ id) : (p.releasePin id dir).pio id' = p.pio id' :=
  withPinDeclaration_frame (fun _ pio => PinDeclaration.release_frame h pio) p.pins p.pio

/-- A pin nobody declares is left alone. -/
theorem reassign_none (h : ∀ pin ∈ p.pins, pin.id ≠ some id) : (p.reassign s new).pio id = p.pio id := by
  have hacquire : ∀ (p : Pins) id', (∀ pin ∈ p.pins, pin.id ≠ some id) →
      (p.acquirePin id' s.kind.direction).pio id = p.pio id := by
    intro p id' h
    by_cases hid : id' = id
    · subst hid
      exact congrFun (withPinDeclaration_none h p.pio) id'
    · exact acquirePin_frame (Ne.symm hid)
  have hrelease : ∀ id', (p.releasePin id' s.kind.direction).pio id = p.pio id := by
    intro id'
    by_cases hid : id' = id
    · subst hid
      exact congrFun (withPinDeclaration_none h p.pio) id'
    · exact releasePin_frame (Ne.symm hid)
  unfold reassign
  dsimp only
  split
  · rfl
  · cases s.assigned with
    | none =>
      cases new with
      | none => rfl
      | some new => exact hacquire p new h
    | some old =>
      cases new with
      | none => exact hrelease old
      | some new =>
        refine (hacquire _ new ?_).trans (hrelease old)
        rw [pins_releasePin]
        simpa using h

/-- A session that does not take the pin leaves it alone, or as the last release does. -/
theorem reassign_one (hpins : p.pins = A ++ pin :: B) (hid : pin.id = some id) (hA : ∀ pin ∈ A, pin.id ≠ some id)
    (hB : ∀ pin ∈ B, pin.id ≠ some id) (hphys : id.physical = true) (hnew : new ≠ some id) :
    (p.reassign s new).pio id =
      if s.on pin = true ∧ ¬ pin.refCount - 1 > 0 then PinDeclaration.retired id.bank (p.pio id) pin
      else p.pio id := by
  have hrelease : ∀ old, s.assigned = some old → (p.releasePin old s.kind.direction).pio id =
      if s.on pin = true ∧ ¬ pin.refCount - 1 > 0 then PinDeclaration.retired id.bank (p.pio id) pin
      else p.pio id := by
    intro old hold
    by_cases hsame : old = id
    · subst hsame
      have hon : s.on pin = pin.matchesPin old s.kind.direction := by simp [Session.on, hold]
      have hone : (withPinDeclaration old s.kind.direction (PinDeclaration.release old) (A ++ pin :: B) p.pio).2 =
          if pin.matchesPin old s.kind.direction then (pin.release old p.pio).2 else p.pio :=
        withPinDeclaration_one hA hB p.pio
      unfold releasePin
      dsimp only
      rw [hpins, hone, hon]
      by_cases hm : pin.matchesPin old s.kind.direction = true
      · rw [if_pos hm, PinDeclaration.release_snd p.pio hphys]
        by_cases hc : pin.refCount - 1 > 0 <;> simp [hm, hc]
      · simp [hm]
    · have hon : s.on pin = false := by
        simp [Session.on, hold, PinDeclaration.matchesPin, hid, Ne.symm hsame]
      rw [releasePin_frame (Ne.symm hsame)]
      simp [hon]
  have hidle : s.assigned = none ∨ s.assigned = new → s.on pin = false := by
    rintro (h | h)
    · simp [Session.on, h]
    · rw [Session.on, h]
      cases new with
      | none => rfl
      | some new =>
        have hne : ¬ id = new := fun he => hnew (by rw [he])
        simp [PinDeclaration.matchesPin, hid, hne]
  have hacquire : ∀ (p : Pins) id', new = some id' → (p.acquirePin id' s.kind.direction).pio id = p.pio id := by
    intro p id' he
    exact acquirePin_frame fun hsame => hnew (by rw [he, hsame])
  unfold reassign
  dsimp only
  split
  · rename_i h
    simp [hidle (.inr h)]
  · cases ha : s.assigned with
    | none =>
      cases hn : new with
      | none => simp [hidle (.inl ha)]
      | some new' =>
        dsimp only
        rw [hacquire p new' hn]
        simp [hidle (.inl ha)]
    | some old =>
      cases hn : new with
      | none => exact hrelease old ha
      | some new' =>
        dsimp only
        rw [hacquire _ new' hn]
        exact hrelease old ha

end Pins

-- ---------------------------------------------------------------------------
-- The sessions are assigned anew
-- ---------------------------------------------------------------------------

/-- The count of an output or interrupt is that of the sessions assigned to its pin. -/
def Tallied (sessions : List Session) (pin : PinDeclaration) : Prop :=
  pin.attr.output = true ∨ pin.attr.irq = true → pin.refCount = .ofNat (sessions.countP (·.on pin))

/-- The declaration of a pin, among declarations with the same accounts. -/
theorem exists_same_account {sessions sessions' : List Session} {pins' A B : List PinDeclaration}
    {pin : PinDeclaration} (hacc : accounts sessions' pins' = accounts sessions (A ++ pin :: B))
    (hA : ∀ pin ∈ A, pin.id ≠ some id) (hB : ∀ pin ∈ B, pin.id ≠ some id) :
    ∃ A' pin' B', pins' = A' ++ pin' :: B' ∧ pin'.declared = pin.declared ∧
      pin'.excess sessions' = pin.excess sessions ∧ (∀ pin ∈ A', pin.id ≠ some id) ∧
      ∀ pin ∈ B', pin.id ≠ some id := by
  have hkeep : ∀ {l l' : List PinDeclaration}, accounts sessions' l' = accounts sessions l →
      (∀ pin ∈ l, pin.id ≠ some id) → ∀ pin ∈ l', pin.id ≠ some id := by
    intro l l' he hl pin' hpin'
    have hmem : (pin'.declared, pin'.excess sessions') ∈ accounts sessions l := by
      rw [← he]
      exact List.mem_map_of_mem hpin'
    obtain ⟨pin, hpin, hp⟩ := List.mem_map.mp hmem
    have hid : pin.id = pin'.id := congrArg (·.1.2.1) hp
    exact hid ▸ hl pin hpin
  unfold accounts at hacc
  rw [List.map_append, List.map_cons] at hacc
  obtain ⟨A', C, rfl, hA', hC⟩ := List.map_eq_append_iff.mp hacc
  obtain ⟨pin', B', rfl, hpin, hB'⟩ := List.map_eq_cons_iff.mp hC
  exact ⟨A', pin', B', rfl, (Prod.mk.inj hpin).1, (Prod.mk.inj hpin).2, hkeep hA' hA, hkeep hB' hB⟩

/-- How far sessions that leave a pin have got: the last one to leave retires it. -/
structure Leaving (id : PinId) (pin : PinDeclaration) (sessions : List Session) (p : Pins)
    (sessions' : List Session) (p' : Pins) : Prop where
  alike : p.Alike p'
  asks : sessions'.map Session.asks = sessions.map Session.asks
  accounts : accounts sessions' p'.pins = accounts sessions p.pins
  regs : p'.pio id = p.pio id ∨ p'.pio id = PinDeclaration.retired id.bank (p.pio id) pin
  gone : (∃ s ∈ sessions, s.on pin = true) → (∀ s ∈ sessions', s.on pin = false) →
    p'.pio id = PinDeclaration.retired id.bank (p.pio id) pin
  never : (∀ s ∈ sessions, s.on pin = false) → p'.pio id = p.pio id ∧ ∀ s ∈ sessions', s.on pin = false

section Leaving

variable {config : Config} {sessions : List Session} {p : Pins} {m : Main} {A B : List PinDeclaration}
  {pin : PinDeclaration}

theorem Leaving.refl : Leaving id pin sessions p sessions p where
  alike := .refl p
  asks := rfl
  accounts := rfl
  regs := .inl rfl
  gone := by
    rintro ⟨s, hs, hon⟩ hnone
    simp [hnone s hs] at hon
  never h := ⟨rfl, h⟩

theorem on_of_ne {s : Session} (hid : pin.id = some id) (h : s.assigned ≠ some id) : s.on pin = false := by
  by_contra hon
  obtain ⟨id', ha, hm⟩ := Session.on_iff.mp (by simpa using hon)
  have := (PinDeclaration.matchesPin_iff.mp hm).1
  exact h (by rw [ha, ← this, hid])

theorem Leaving.reassign {pre post : List Session} {s : Session} {p' : Pins} {new : Option PinId}
    (hpins : p.pins = A ++ pin :: B) (hid : pin.id = some id) (hA : ∀ pin ∈ A, pin.id ≠ some id)
    (hB : ∀ pin ∈ B, pin.id ≠ some id) (hphys : id.physical = true) (htally : Tallied sessions pin)
    (h : Leaving id pin sessions p (pre ++ s :: post) p') (hnew : new ≠ some id) :
    Leaving id pin sessions p (pre ++ { s with assigned := new } :: post) (p'.reassign s new) := by
  obtain ⟨A', pin', B', hpins', hdeclared, hexcess, hA', hB'⟩ := exists_same_account (hpins ▸ h.accounts) hA hB
  have hid' : pin'.id = some id := (congrArg (·.2.1) hdeclared : pin'.id = pin.id).trans hid
  have hattr : pin'.attr = pin.attr := congrArg (·.2.2) hdeclared
  have hat := Pins.reassign_one (s := s) hpins' hid' hA' hB' hphys hnew
  rw [PinDeclaration.on_congr hdeclared, PinDeclaration.retired_congr hdeclared] at hat
  have hleft : Session.on pin { s with assigned := new } = false := on_of_ne hid hnew
  have hretired : (p'.reassign s new).pio id = p'.pio id ∨
      (p'.reassign s new).pio id = PinDeclaration.retired id.bank (p'.pio id) pin := by
    rw [hat]
    split
    · exact .inr rfl
    · exact .inl rfl
  -- a pin that was retired once stays as it is
  have hagain : p'.pio id = PinDeclaration.retired id.bank (p.pio id) pin →
      (p'.reassign s new).pio id = PinDeclaration.retired id.bank (p.pio id) pin := by
    intro he
    rcases hretired with hr | hr
    · rw [hr, he]
    · rw [hr, he, PinDeclaration.retired_retired]
  refine ⟨h.alike.trans Pins.alike_reassign, ?_, (accounts_reassign _).trans h.accounts, ?_, ?_, ?_⟩
  · rw [← h.asks]
    simp [Session.asks]
  · rcases h.regs with he | he
    · rw [← he]
      exact hretired
    · exact .inr (hagain he)
  · intro hused hnone
    have hothers : ∀ s' ∈ pre ++ post, s'.on pin = false := by
      intro s' hs'
      refine hnone s' ?_
      rcases List.mem_append.mp hs' with hs' | hs'
      · exact List.mem_append_left _ hs'
      · exact List.mem_append_right _ (.tail _ hs')
    by_cases hon : s.on pin = true
    · by_cases hacts : pin.attr.output = true ∨ pin.attr.irq = true
      · -- the last session leaves, so the count falls to zero
        have hcount : pin'.refCount = 1 := by
          have hzero : pin'.excess (pre ++ s :: post) = 0 := by
            rw [hexcess, PinDeclaration.excess_eq_zero]
            exact htally hacts
          have hnone' : (pre ++ post).countP (·.on pin') = 0 := by
            rw [List.countP_eq_zero]
            intro s' hs'
            rw [PinDeclaration.on_congr hdeclared, hothers s' hs']
            simp
          rw [PinDeclaration.excess_eq, PinDeclaration.excess, hnone', PinDeclaration.on_congr hdeclared,
            hon] at hzero
          have hone : pin'.refCount - UInt32.ofNat 0 - one true = pin'.refCount - 1 := by
            simp [one]
          rw [hone] at hzero
          grind
        have hnow : (p'.reassign s new).pio id = PinDeclaration.retired id.bank (p'.pio id) pin := by
          rw [hat, if_pos ⟨hon, by rw [hcount]; decide⟩]
        rcases h.regs with he | he
        · rw [hnow, he]
        · exact hagain he
      · have hstill : ∀ r, PinDeclaration.retired id.bank r pin = r := by
          intro r
          simp only [not_or, Bool.not_eq_true] at hacts
          simp [PinDeclaration.retired, hacts]
        rcases hretired with hr | hr <;> rcases h.regs with he | he <;> simp [hr, he, hstill]
    · refine hagain (h.gone hused fun s' hs' => ?_)
      rcases List.mem_append.mp hs' with hs' | hs'
      · exact hothers s' (List.mem_append_left _ hs')
      · rcases List.mem_cons.mp hs' with rfl | hs'
        · simpa using hon
        · exact hothers s' (List.mem_append_right _ hs')
  · intro hunused
    obtain ⟨hsame, hnone⟩ := h.never hunused
    have hon : s.on pin = false := hnone s (by simp)
    refine ⟨by rw [hat, hon]; simpa using hsame, fun s' hs' => ?_⟩
    rcases List.mem_append.mp hs' with hs' | hs'
    · exact hnone s' (List.mem_append_left _ hs')
    · rcases List.mem_cons.mp hs' with rfl | hs'
      · exact hleft
      · exact hnone s' (List.mem_append_right _ (.tail _ hs'))

/-- What a pin comes to when its sessions are assigned anew and none keeps or takes it: if there were
any, the last one to leave retires it. -/
theorem updateSessions_at (hok : Main.updateSessions config p sessions = .ok m)
    (hpins : p.pins = A ++ pin :: B) (hid : pin.id = some id) (hA : ∀ pin ∈ A, pin.id ≠ some id)
    (hB : ∀ pin ∈ B, pin.id ≠ some id) (hphys : id.physical = true) (htally : Tallied sessions pin)
    (hunused : ∀ s ∈ m.sessions, s.assigned ≠ some id) :
    ((∀ s ∈ sessions, s.on pin = false) → m.pio id = p.pio id) ∧
    ((∃ s ∈ sessions, s.on pin = true) → m.pio id = PinDeclaration.retired id.bank (p.pio id) pin) := by
  obtain ⟨hconfig, halike, hlabels, hsettled⟩ := settled_updateSessions hok
  -- no session is assigned to the pin on the way
  have hnew : ∀ (sessions' : List Session) (p' : Pins) (s : Session) new,
      sessions'.map Session.asks = sessions.map Session.asks → p.Alike p' → s ∈ sessions' →
      p'.assignedPin config s.label s.kind.direction = .ok new → new ≠ some id := by
    rintro sessions' p' s new hl ha hs hassigned rfl
    obtain ⟨s', hs', hkind, hlabel⟩ := exists_asks (hlabels.trans hl.symm) hs
    have hset := hsettled s' hs'
    rw [Settled, hconfig, halike.assignedPin, hkind, hlabel, ← ha.assignedPin, hassigned] at hset
    exact hunused s' hs' (Except.ok.inj hset).symm
  have hend : Leaving id pin sessions p m.sessions m.toPins := by
    refine updateSessions_induct (J := Leaving id pin sessions p) ?_ .refl hok
    intro pre s post p' new hJ hassigned
    exact hJ.reassign hpins hid hA hB hphys htally (hnew _ p' s new hJ.asks hJ.alike (by simp) hassigned)
  refine ⟨fun hnone => (hend.never hnone).1, fun hused => hend.gone hused fun s hs => ?_⟩
  exact on_of_ne hid (hunused s hs)

/-- A pin nobody declares is left alone. -/
theorem updateSessions_none (hok : Main.updateSessions config p sessions = .ok m)
    (hnone : ∀ pin ∈ p.pins, pin.id ≠ some id) : m.pio id = p.pio id := by
  have hids : ∀ p' : Pins, p.Alike p' → ∀ pin ∈ p'.pins, pin.id ≠ some id := by
    intro p' halike pin hpin
    have hmem : pin.declared ∈ p.pins.map PinDeclaration.declared := halike ▸ List.mem_map_of_mem hpin
    obtain ⟨pin', hpin', he⟩ := List.mem_map.mp hmem
    exact (congrArg (·.2.1) he : pin'.id = pin.id) ▸ hnone pin' hpin'
  have hend : p.Alike m.toPins ∧ m.pio id = p.pio id := by
    refine updateSessions_induct (J := fun _ p' => p.Alike p' ∧ p'.pio id = p.pio id) ?_ ⟨.refl p, rfl⟩ hok
    rintro pre s post p' new ⟨halike, hsame⟩ -
    exact ⟨halike.trans Pins.alike_reassign, (Pins.reassign_none (hids p' halike)).trans hsame⟩
  exact hend.2

end Leaving

-- ---------------------------------------------------------------------------
-- Pins that are declared once
-- ---------------------------------------------------------------------------

/-- What is declared is not of the same pin. -/
def Apart (a b : Name × Option PinId × Attr) : Prop :=
  ∀ id, id.physical = true → a.2.1 = some id → b.2.1 ≠ some id

theorem Apart.symm {a b : Name × Option PinId × Attr} (h : Apart a b) : Apart b a :=
  fun id hphys hb ha => h id hphys ha hb

/-- The configuration declares a physical pin at most once. -/
def Config.DeclaresOnce (fmt : Formats) (config : Config) : Prop :=
  ((config.nodes.filter PinDeclaration.typeMatches).map (Node.declared fmt)).Pairwise Apart

/-- The loop of `assigned_pin` finds a declaration of the direction. -/
theorem exists_of_lookup {name : Name} {pins : List PinDeclaration} {found : Option PinId}
    (h : Pins.lookup name dir pins found = .ok (some id)) :
    found = some id ∨ ∃ pin ∈ pins, pin.matchesPin id dir = true := by
  induction pins generalizing found with
  | nil =>
    simp only [Pins.lookup, Except.ok.injEq] at h
    exact .inl h
  | cons pin pins ih =>
    unfold Pins.lookup at h
    split at h
    · rename_i hm
      cases hid : pin.id with
      | none => simp [hid] at h
      | some id' =>
        simp only [hid] at h
        rcases ih h with he | ⟨pin', hpin', hm'⟩
        · exact .inr ⟨pin, .head _, PinDeclaration.matchesPin_iff.mpr ⟨hid.trans he, hm.2⟩⟩
        · exact .inr ⟨pin', .tail _ hpin', hm'⟩
    · rcases ih h with he | ⟨pin', hpin', hm'⟩
      · exact .inl he
      · exact .inr ⟨pin', .tail _ hpin', hm'⟩

/-- A session is assigned to a declared pin. -/
theorem exists_of_settled {config : Config} {p : Pins} {s : Session} (h : Settled config p s)
    (ha : s.assigned = some id) : ∃ pin ∈ p.pins, pin.matchesPin id s.kind.direction = true := by
  unfold Settled Pins.assignedPin at h
  rw [ha] at h
  split at h
  · cases h
  · rcases exists_of_lookup h with he | hex
    · cases he
    · exact hex

theorem eq_of_apart {pins : List PinDeclaration} {pin pin' : PinDeclaration}
    (h : (pins.map PinDeclaration.declared).Pairwise Apart) (hphys : id.physical = true) (hpin : pin ∈ pins)
    (hpin' : pin' ∈ pins) (hid : pin.id = some id) (hid' : pin'.id = some id) : pin = pin' := by
  by_contra hne
  have hp : pins.Pairwise fun a b => Apart a.declared b.declared := List.pairwise_map.mp h
  have : Std.Symm fun a b : PinDeclaration => Apart a.declared b.declared := ⟨fun _ _ h => h.symm⟩
  exact hp.forall hpin hpin' hne id hphys hid hid'

/-- A session that is assigned to a pin is on its declaration. -/
theorem on_of_assigned {config : Config} {p : Pins} {s : Session} {pin : PinDeclaration}
    (h : (p.pins.map PinDeclaration.declared).Pairwise Apart) (hset : Settled config p s)
    (hphys : id.physical = true) (ha : s.assigned = some id) (hpin : pin ∈ p.pins) (hid : pin.id = some id) :
    s.on pin = true := by
  obtain ⟨pin', hpin', hm⟩ := exists_of_settled hset ha
  obtain rfl := eq_of_apart h hphys hpin hpin' hid (PinDeclaration.matchesPin_iff.mp hm).1
  exact Session.on_iff.mpr ⟨id, ha, hm⟩

-- ---------------------------------------------------------------------------
-- The invariant
-- ---------------------------------------------------------------------------

namespace Main

variable {m m' : Main} {config : Config}

/-- What holds of the registers between events: pins that are not declared, and on-demand outputs that no
session uses, are disabled. -/
structure Tidy (fmt : Formats) (m : Main) : Prop where
  current : m.Current fmt
  settled : ∀ s ∈ m.sessions, Settled m.config m.toPins s
  apart : (m.pins.map PinDeclaration.declared).Pairwise Apart
  tallied : ∀ pin ∈ m.pins, ∀ id, pin.id = some id → id.physical = true → Tallied m.sessions pin
  undeclared : ∀ id : PinId, id.physical = true → (∀ pin ∈ m.pins, pin.id ≠ some id) →
    (m.pio id).Disabled id.bank
  idle : ∀ pin ∈ m.pins, ∀ id, pin.id = some id → id.physical = true →
    (pin.attr.output && pin.attr.outOnDemand) = true → (∀ s ∈ m.sessions, s.on pin = false) →
    (m.pio id).Disabled id.bank

/-- Tallies follow from the accounts. -/
theorem tallied_of_accounts {sessions sessions' : List Session} {pins pins' : List PinDeclaration}
    (h : accounts sessions' pins' = accounts sessions pins)
    (ht : ∀ pin ∈ pins, ∀ id, pin.id = some id → id.physical = true → Tallied sessions pin) :
    ∀ pin ∈ pins', ∀ id, pin.id = some id → id.physical = true → Tallied sessions' pin := by
  intro pin' hpin' id hid' hphys hacts
  have hmem : (pin'.declared, pin'.excess sessions') ∈ accounts sessions pins := by
    rw [← h]
    exact List.mem_map_of_mem hpin'
  obtain ⟨pin, hpin, he⟩ := List.mem_map.mp hmem
  obtain ⟨hdeclared, hexcess⟩ := Prod.mk.inj he
  have hid : pin.id = pin'.id := congrArg (·.2.1) hdeclared
  have hattr : pin.attr = pin'.attr := congrArg (·.2.2) hdeclared
  rw [← PinDeclaration.excess_eq_zero, ← hexcess, PinDeclaration.excess_eq_zero]
  exact ht pin hpin id (hid.trans hid') hphys (hattr ▸ hacts)

theorem Tidy.exists_of_mem (halike : m.Alike m'.toPins) {pin' : PinDeclaration} (hpin' : pin' ∈ m'.pins) :
    ∃ pin ∈ m.pins, pin.declared = pin'.declared := by
  have hmem : pin'.declared ∈ m.pins.map PinDeclaration.declared := halike ▸ List.mem_map_of_mem hpin'
  exact List.mem_map.mp hmem

/-- An event that changes a pin only where a session is on it keeps the registers tidy. -/
theorem Tidy.handle_of {e : Event} (ht : m.Tidy fmt) (h : m.handle fmt e = .ok m')
    (he : ∀ config, e ≠ .config config) (hacc : accounts m'.sessions m'.pins = accounts m.sessions m.pins)
    (hnone : ∀ id, id.physical = true → (∀ pin ∈ m.pins, pin.id ≠ some id) → m'.pio id = m.pio id)
    (hidle : ∀ pin ∈ m.pins, ∀ id, pin.id = some id → id.physical = true →
      (pin.attr.output && pin.attr.outOnDemand) = true → (∀ s ∈ m'.sessions, s.on pin = false) →
      (m'.pio id).Disabled id.bank) : m'.Tidy fmt := by
  obtain ⟨halike, hconfig⟩ := alike_handle h he
  refine ⟨ht.current.handle h, settled_handle ht.settled h, ?_, tallied_of_accounts hacc ht.tallied, ?_, ?_⟩
  · rw [show m'.pins.map PinDeclaration.declared = m.pins.map PinDeclaration.declared from halike]
    exact ht.apart
  · intro id hphys hno
    have hno' : ∀ pin ∈ m.pins, pin.id ≠ some id := by
      intro pin hpin
      have hmem : pin.declared ∈ m'.pins.map PinDeclaration.declared :=
        (show m'.pins.map PinDeclaration.declared = _ from halike) ▸ List.mem_map_of_mem hpin
      obtain ⟨pin', hpin', he⟩ := List.mem_map.mp hmem
      exact (congrArg (·.2.1) he : pin'.id = pin.id) ▸ hno pin' hpin'
    rw [hnone id hphys hno']
    exact ht.undeclared id hphys hno'
  · intro pin' hpin' id hid' hphys hdemand hfree
    obtain ⟨pin, hpin, hdeclared⟩ := Tidy.exists_of_mem halike hpin'
    have hid : pin.id = pin'.id := congrArg (·.2.1) hdeclared
    have hattr : pin.attr = pin'.attr := congrArg (·.2.2) hdeclared
    refine hidle pin hpin id (hid.trans hid') hphys (hattr ▸ hdemand) fun s hs => ?_
    rw [PinDeclaration.on_congr hdeclared]
    exact hfree s hs

theorem Tidy.request {kind : SessionKind} {label : Text} (ht : m.Tidy fmt)
    (h : m.handle fmt (.request kind label) = .ok m') : m'.Tidy fmt := by
  rcases createSession_ok h with ⟨-, rfl⟩ | ⟨id', hassigned, hm'⟩
  · exact ht
  · have hpins : m'.toPins = m.acquirePin id' kind.direction := by rw [hm']
    have hsessions : m'.sessions = m.sessions ++ [{ kind, label, assigned := some id' }] := by rw [hm']
    have hacc : accounts m'.sessions m'.pins = accounts m.sessions m.pins := by
      rw [hpins, hsessions]
      exact accounts_createSession
    refine ht.handle_of h (by simp) hacc (fun id hphys hno => ?_) fun pin hpin id hid hphys hdemand hfree => ?_
    · rw [hpins]
      by_cases hsame : id' = id
      · subst hsame
        exact congrFun (withPinDeclaration_none hno m.pio) id'
      · exact Pins.acquirePin_frame (Ne.symm hsame)
    · have hne : id ≠ id' := by
        rintro rfl
        have hon := on_of_assigned (s := { kind, label, assigned := some id }) ht.apart hassigned hphys rfl hpin hid
        rw [hfree _ (by simp [hsessions])] at hon
        cases hon
      rw [hpins, Pins.acquirePin_frame hne]
      exact ht.idle pin hpin id hid hphys hdemand fun s hs => hfree s (by simp [hsessions, hs])

theorem Tidy.close {n : Nat} (ht : m.Tidy fmt) : (m.closeSession n).Tidy fmt := by
  refine ht.handle_of (e := .close n) rfl (by simp) (accounts_closeSession m n) ?_ ?_
  · intro id hphys hno
    unfold closeSession
    split
    · rfl
    · dsimp only
      split
      · rename_i id' _
        by_cases hsame : id' = id
        · subst hsame
          exact congrFun (withPinDeclaration_none hno m.pio) id'
        · exact Pins.releasePin_frame (Ne.symm hsame)
      · rfl
  · intro pin hpin id hid hphys hdemand hfree
    rw [sessions_closeSession] at hfree
    cases hs : m.sessions[n]? with
    | none =>
      have hsame : m.closeSession n = m := by simp [closeSession, hs]
      rw [hsame]
      rw [List.eraseIdx_of_length_le (List.getElem?_eq_none_iff.mp hs)] at hfree
      exact ht.idle pin hpin id hid hphys hdemand hfree
    | some s =>
      have hmem : s ∈ m.sessions := List.mem_of_getElem? hs
      have hpio : (m.closeSession n).pio = (m.reassign s none).pio := by
        unfold closeSession Pins.reassign
        simp only [hs]
        cases s.assigned <;> rfl
      obtain ⟨A, B, hsplit⟩ := List.append_of_mem hpin
      have hapart := ht.apart
      rw [hsplit, List.map_append, List.map_cons, List.pairwise_append] at hapart
      have hA : ∀ pin ∈ A, pin.id ≠ some id := fun pin' hpin' hid' =>
        hapart.2.2 _ (List.mem_map_of_mem hpin') _ (.head _) id hphys hid' hid
      have hB : ∀ pin ∈ B, pin.id ≠ some id := fun pin' hpin' hid' =>
        List.rel_of_pairwise_cons hapart.2.1 (List.mem_map_of_mem hpin') id hphys hid hid'
      rw [hpio, Pins.reassign_one hsplit hid hA hB hphys (by simp)]
      have hout : pin.attr.output = true ∧ pin.attr.outOnDemand = true := by simpa using hdemand
      by_cases hon : s.on pin = true
      · -- the session was the last one on the pin
        have hexcess := excess_eraseIdx hs pin
        have hzero : (m.sessions.eraseIdx n).countP (·.on pin) = 0 := by
          rw [List.countP_eq_zero]
          intro s' hs'
          simp [hfree s' hs']
        rw [PinDeclaration.excess_eq_zero.mpr (ht.tallied pin hpin id hid hphys (.inl hout.1)), hon,
          PinDeclaration.excess, hzero] at hexcess
        have hcount : pin.refCount = 1 := by simpa [one] using hexcess
        rw [if_pos ⟨hon, by rw [hcount]; decide⟩, PinDeclaration.retired, if_pos hout.1, if_pos hout.2]
        exact PinRegs.disabled_configure _ _
      · rw [if_neg fun h => hon h.1]
        refine ht.idle pin hpin id hid hphys hdemand fun s' hs' => ?_
        obtain ⟨i, hi⟩ := List.mem_iff_getElem?.mp hs'
        by_cases hin : i = n
        · subst hin
          rw [hs] at hi
          simpa [← Option.some.inj hi] using hon
        · exact hfree s' (List.mem_eraseIdx_iff_getElem?.mpr ⟨i, hin, hi⟩)

theorem Tidy.state {n : Nat} {level : Level} (ht : m.Tidy fmt) : (m.setState n level).Tidy fmt := by
  obtain ⟨hpins, -, hsessions⟩ := setState_fields m n level
  have hacc : accounts (m.setState n level).sessions (m.setState n level).pins = accounts m.sessions m.pins := by
    rw [hpins, hsessions]
  -- the level is set for a session's own pin
  have hframe : ∀ id : PinId, (∀ s ∈ m.sessions, s.assigned ≠ some id) → (m.setState n level).pio id = m.pio id := by
    intro id hno
    unfold setState
    split
    · rename_i label id' hs
      exact Registers.write_of_ne (fun he => hno _ (List.mem_of_getElem? hs) (by rw [he])) _
    · rfl
  refine ht.handle_of (e := .state n level) rfl (by simp) hacc (fun id hphys hno => ?_)
    fun pin hpin id hid hphys hdemand hfree => ?_
  · refine hframe id fun s hs ha => ?_
    obtain ⟨pin, hpin, hm⟩ := exists_of_settled (ht.settled s hs) ha
    exact hno pin hpin (PinDeclaration.matchesPin_iff.mp hm).1
  · rw [hsessions] at hfree
    rw [hframe id fun s hs ha => by
      have hon := on_of_assigned ht.apart (ht.settled s hs) hphys ha hpin hid
      simp [hfree s hs] at hon]
    exact ht.idle pin hpin id hid hphys hdemand hfree

end Main

-- ---------------------------------------------------------------------------
-- Updates that spoil no pin
-- ---------------------------------------------------------------------------

/-- A declaration without sessions leaves the pin disabled. -/
def Attr.LeavesDisabled (bank : Bank) (attr : Attr) : Prop :=
  (attr.output && attr.outOnDemand) = true ∨
    attr.function = .disable ∧ attr.pull = .disable ∧ (bank.hasIrqRegs = true → attr.irqTrigger = .rising)

/-- What a node that declares a pin meets, for the declaration it takes, the pairs behind it and the
declarations left over. -/
structure Undisturbed (m : Main) (fmt : Formats) (config : Config) (x : PinDeclaration × Node)
    (behind : List (PinDeclaration × Node)) (id : PinId) : Prop where
  /-- no declaration that goes on or ends afterwards had the pin, unless it is left disabled -/
  later : (x.2.declaredAttr fmt).LeavesDisabled id.bank ∨ (∀ y ∈ behind, y.1.id ≠ some id) ∧
    ∀ pin ∈ (PinDeclaration.model fmt).left m.pins config.nodes, pin.id ≠ some id
  /-- a default output does not become one on demand, unless a session uses it -/
  demand : ((x.2.declaredAttr fmt).output && (x.2.declaredAttr fmt).outOnDemand) = true → x.1.id = some id →
    x.1.attr.outOnDemand = true ∨ ∃ s ∈ m.sessions, s.on (x.1.declare fmt x.2) = true
  /-- the count of an output or interrupt is that of the sessions assigned to the pin -/
  tally : Tallied m.sessions (x.1.declare fmt x.2)
  /-- an interrupt that sessions use remains in use -/
  irq : (x.2.declaredAttr fmt).irq = true → (∃ s ∈ m.sessions, s.on (x.1.declare fmt x.2) = true) →
    ∃ s ∈ m.sessions, (config.candidates fmt s.label s.kind.direction).getLast?.bind (Node.declaredId fmt) = some id

/-- No node that declares a pin is disturbed. -/
def Main.Unspoiled (fmt : Formats) (m : Main) (config : Config) : Prop :=
  ∀ A x B id, (PinDeclaration.model fmt).pairs m.pins config.nodes = A ++ x :: B →
    x.2.declaredId fmt = some id → id.physical = true → Undisturbed m fmt config x B id

/-- The registers of the pin are as a driver that starts with the configuration programs them, and so is
the level of a default output. -/
structure AsFresh (fmt : Formats) (config : Config) (id : PinId) (r : PinRegs) : Prop where
  agree : r.Agree id.bank (freshly fmt config id)
  data : ∀ node ∈ config.nodes, PinDeclaration.typeMatches node = true → node.declaredId fmt = some id →
    (node.declaredAttr fmt).output = true → (node.declaredAttr fmt).outOnDemand = false →
    r.data = (freshly fmt config id).data

/-- A default output has a level. -/
theorem defaultState_ne {node : Node} (hid : node.declaredId fmt = some id)
    (hdemand : (node.declaredAttr fmt).outOnDemand = false) :
    (node.declaredAttr fmt).defaultState = .high ∨ (node.declaredAttr fmt).defaultState = .low := by
  obtain ⟨-, hnone, hstate⟩ := Node.attr_parts hid
  have hdefault : node.default ≠ none := by
    intro hn
    rw [hnone, hn] at hdemand
    cases hdemand
  rw [hstate, Attr.defaultStateFromNode, if_neg hdefault]
  split <;> simp

-- ---------------------------------------------------------------------------
-- An update of the configuration
-- ---------------------------------------------------------------------------

namespace Main

variable {m m' : Main} {config : Config} {p : Pins} {A B : List (PinDeclaration × Node)}
  {x : PinDeclaration × Node}

theorem nodes_split (hpairs : (PinDeclaration.model fmt).pairs m.pins config.nodes = A ++ x :: B) :
    config.nodes.filter PinDeclaration.typeMatches = A.map Prod.snd ++ x.2 :: B.map Prod.snd := by
  have hsnd : ((PinDeclaration.model fmt).pairs m.pins config.nodes).map Prod.snd =
      config.nodes.filter PinDeclaration.typeMatches := ListModel.pairs_snd
  rw [← hsnd, hpairs, List.map_append, List.map_cons]

/-- Only one node declares the pin. -/
theorem declaredBy_of_once (honce : config.DeclaresOnce fmt)
    (hpairs : (PinDeclaration.model fmt).pairs m.pins config.nodes = A ++ x :: B)
    (hphys : id.physical = true) (hid : x.2.declaredId fmt = some id) : DeclaredBy fmt m config id A x B := by
  unfold Config.DeclaresOnce at honce
  rw [nodes_split hpairs, List.map_append, List.map_cons, List.pairwise_append] at honce
  refine ⟨hphys, hpairs, hid, fun y hy hid' => ?_, fun y hy hid' => ?_⟩
  · exact honce.2.2 _ (List.mem_map_of_mem (List.mem_map_of_mem hy)) _ (.head _) id hphys hid' hid
  · exact List.rel_of_pairwise_cons honce.2.1 (List.mem_map_of_mem (List.mem_map_of_mem hy)) id hphys hid hid'

namespace DeclaredBy

theorem only (hx : DeclaredBy fmt m config id A x B) {node : Node} (hnode : node ∈ config.nodes)
    (htype : PinDeclaration.typeMatches node = true) (hid : node.declaredId fmt = some id) : node = x.2 := by
  have hmem : node ∈ A.map Prod.snd ++ x.2 :: B.map Prod.snd :=
    nodes_split hx.pairs ▸ List.mem_filter.mpr ⟨hnode, htype⟩
  rcases List.mem_append.mp hmem with h | h
  · obtain ⟨y, hy, rfl⟩ := List.mem_map.mp h
    exact absurd hid (hx.before y hy)
  · rcases List.mem_cons.mp h with h | h
    · exact h
    · obtain ⟨y, hy, rfl⟩ := List.mem_map.mp h
      exact absurd hid (hx.behind y hy)

theorem freshly_eq (hx : DeclaredBy fmt m config id A x B) :
    freshly fmt config id = (Registers.disabled id).programmed id.bank (x.2.declaredAttr fmt) := by
  refine freshly_declared hx.physical (nodes_split hx.pairs) ?_ ?_ hx.declared
  · intro n hn
    obtain ⟨y, hy, rfl⟩ := List.mem_map.mp hn
    exact hx.before y hy
  · intro n hn
    obtain ⟨y, hy, rfl⟩ := List.mem_map.mp hn
    exact hx.behind y hy

/-- What the registers of the pin have to hold. -/
theorem asFresh {r : PinRegs} (hx : DeclaredBy fmt m config id A x B)
    (hagree : r.Agree id.bank ((Registers.disabled id).programmed id.bank (x.2.declaredAttr fmt)))
    (hdata : (x.2.declaredAttr fmt).output = true → (x.2.declaredAttr fmt).outOnDemand = false →
      r.data = ((Registers.disabled id).programmed id.bank (x.2.declaredAttr fmt)).data) :
    AsFresh fmt config id r := by
  rw [← hx.freshly_eq] at hagree hdata
  refine ⟨hagree, fun node hnode htype hid hout hdefault => ?_⟩
  obtain rfl := hx.only hnode htype hid
  exact hdata hout hdefault

/-- The declarations after the update. -/
theorem pins (hx : DeclaredBy fmt m config id A x B) (hp : m.updatePins fmt config = .ok p) :
    p.pins = A.map (fun y => y.1.declare fmt y.2) ++ x.1.declare fmt x.2 ::
      B.map (fun y => y.1.declare fmt y.2) := by
  rw [(updatePins_ok hp).1, hx.pairs, List.map_append, List.map_cons]

/-- What an update leaves of a pin that no session uses afterwards. -/
theorem handleConfig_at (hx : DeclaredBy fmt m config id A x B) (hp : m.updatePins fmt config = .ok p)
    (hu : updateSessions config p m.sessions = .ok m')
    (htally : Tallied m.sessions (x.1.declare fmt x.2)) (hfree : ∀ s ∈ m'.sessions, s.assigned ≠ some id) :
    ((∀ s ∈ m.sessions, s.on (x.1.declare fmt x.2) = false) ∧ m'.pio id = p.pio id) ∨
    ((∃ s ∈ m.sessions, s.on (x.1.declare fmt x.2) = true) ∧
      m'.pio id = PinDeclaration.retired id.bank (p.pio id) (x.1.declare fmt x.2)) := by
  have hat : ((∀ s ∈ m.sessions, s.on (x.1.declare fmt x.2) = false) → m'.pio id = p.pio id) ∧
      ((∃ s ∈ m.sessions, s.on (x.1.declare fmt x.2) = true) →
        m'.pio id = PinDeclaration.retired id.bank (p.pio id) (x.1.declare fmt x.2)) := by
    refine updateSessions_at hu (hx.pins hp) hx.declared ?_ ?_ hx.physical htally hfree
    · intro pin hpin
      obtain ⟨y, hy, rfl⟩ := List.mem_map.mp hpin
      exact hx.before y hy
    · intro pin hpin
      obtain ⟨y, hy, rfl⟩ := List.mem_map.mp hpin
      exact hx.behind y hy
  by_cases hused : ∃ s ∈ m.sessions, s.on (x.1.declare fmt x.2) = true
  · exact .inr ⟨hused, hat.2 hused⟩
  · have hidle : ∀ s ∈ m.sessions, s.on (x.1.declare fmt x.2) = false := fun s hs => by
      simpa using fun hon => hused ⟨s, hs, hon⟩
    exact .inl ⟨hidle, hat.1 hidle⟩

end DeclaredBy

/-- A session that the configuration assigns to a pin has it after an update. -/
theorem exists_assigned (hp : m.updatePins fmt config = .ok p) (hu : updateSessions config p m.sessions = .ok m')
    {s : Session} (hs : s ∈ m.sessions)
    (hlast : (config.candidates fmt s.label s.kind.direction).getLast?.bind (Node.declaredId fmt) = some id) :
    ∃ s' ∈ m'.sessions, s'.assigned = some id := by
  obtain ⟨hconfig, halike, hlabels, hsettled⟩ := settled_updateSessions hu
  obtain ⟨s', hs', hkind, hlabel⟩ := exists_asks hlabels hs
  have hset := hsettled s' hs'
  rw [Settled, hconfig, halike.assignedPin, assignedPin_eq (declared_updatePins hp), hkind, hlabel, hlast] at hset
  split at hset
  · exact ⟨s', hs', (Except.ok.inj hset).symm⟩
  · cases hset

/-- An on-demand output that no session uses is disabled after an update. -/
theorem Tidy.disabled_onDemand (ht : m.Tidy fmt) (hx : DeclaredBy fmt m config id A x B)
    (hun : Undisturbed m fmt config x B id) (hp : m.updatePins fmt config = .ok p)
    (hu : updateSessions config p m.sessions = .ok m')
    (hdemand : ((x.2.declaredAttr fmt).output && (x.2.declaredAttr fmt).outOnDemand) = true)
    (hfree : ∀ s ∈ m'.sessions, s.assigned ≠ some id) : (m'.pio id).Disabled id.bank := by
  have hout : (x.2.declaredAttr fmt).output = true ∧ (x.2.declaredAttr fmt).outOnDemand = true := by
    simpa using hdemand
  rcases hx.handleConfig_at hp hu hun.tally hfree with ⟨hidle, hat⟩ | ⟨hused, hat⟩
  · rw [hat]
    refine disabled_of_onDemand hx hp hdemand fun hheld => ?_
    by_cases hkept : x.1 ∈ m.pins ∧ x.1.id = some id
    · -- the declaration keeps its pin, which was on demand before
      obtain ⟨hmem, hid⟩ := hkept
      have hbefore : x.1.attr.outOnDemand = true := by
        rcases hun.demand hdemand hid with h | ⟨s, hs, hon⟩
        · exact h
        · simp [hidle s hs] at hon
      have hagrees : (PinDeclaration.model fmt).agrees x.2 x.1 = true := by
        rcases ListModel.mem_pairs (hx.pairs ▸ List.mem_append_right A (.head B) :
          x ∈ (PinDeclaration.model fmt).pairs m.pins config.nodes) with he | ⟨-, h⟩
        · rw [he] at hid
          cases hid
        · exact h
      have hdir : x.1.attr.function.direction = .output := by
        obtain ⟨-, -, f, hf, hd⟩ := PinDeclaration.agreeing_iff.mp hagrees
        rw [(Node.attr_parts hx.declared).1, Except.ok.injEq] at hf
        rw [hd, ← hf]
        exact Attr.output_iff.mp hout.1
      refine ht.idle x.1 hmem id hid hx.physical ?_ fun s hs => ?_
      · rw [Attr.output_iff.mpr hdir, hbefore]
        rfl
      · have hm : x.1.matchesPin id .output = true := PinDeclaration.matchesPin_iff.mpr ⟨hid, hdir⟩
        have hm' : (x.1.declare fmt x.2).matchesPin id .output = true :=
          PinDeclaration.matchesPin_iff.mpr ⟨hx.declared, Attr.output_iff.mp hout.1⟩
        rw [PinDeclaration.on_eq_uses hm, ← PinDeclaration.on_eq_uses hm']
        exact hidle s hs
    · refine ht.undeclared id hx.physical fun pin hpin hid => ?_
      have := hheld pin hpin hid
      exact hkept ⟨this ▸ hpin, this ▸ hid⟩
  · have hattr : (x.1.declare fmt x.2).attr = x.2.declaredAttr fmt := rfl
    rw [hat, PinDeclaration.retired, hattr, if_pos hout.1, if_pos hout.2]
    exact PinRegs.disabled_configure _ _

/-- A pin that is to be disabled is, whoever does it. -/
theorem asFresh_of_disable (hx : DeclaredBy fmt m config id A x B) (hun : Undisturbed m fmt config x B id)
    (hp : m.updatePins fmt config = .ok p) (hu : updateSessions config p m.sessions = .ok m')
    (hdisable : (x.2.declaredAttr fmt).function = .disable ∧ (x.2.declaredAttr fmt).pull = .disable ∧
      (id.bank.hasIrqRegs = true → (x.2.declaredAttr fmt).irqTrigger = .rising))
    (hfree : ∀ s ∈ m'.sessions, s.assigned ≠ some id) : AsFresh fmt config id (m'.pio id) := by
  have hout : (x.2.declaredAttr fmt).output = false := by simp [Attr.output, hdisable.1]
  have hirq : (x.2.declaredAttr fmt).irq = false := by simp [Attr.irq, hdisable.1]
  have hconf : ∀ r : PinRegs, (r.configure id.bank (x.2.declaredAttr fmt)).Disabled id.bank := fun r =>
    ⟨hdisable.1, hdisable.2.1, fun hb => (if_pos hb).trans (hdisable.2.2 hb)⟩
  have hsame : m'.pio id = p.pio id := by
    rcases hx.handleConfig_at hp hu hun.tally hfree with ⟨-, hat⟩ | ⟨-, hat⟩
    · exact hat
    · have hattr : (x.1.declare fmt x.2).attr = x.2.declaredAttr fmt := rfl
      rw [hat, PinDeclaration.retired, hattr]
      simp [hout, hirq]
  refine hx.asFresh ?_ (by simp [hout])
  rw [hsame, PinRegs.programmed]
  simp only [hout, Bool.false_and, Bool.false_eq_true, if_false]
  exact (disabled_of_configured hx hp hout hconf).agree (hconf _)

/-- A default output is driven. -/
theorem asFresh_of_default (hx : DeclaredBy fmt m config id A x B) (hun : Undisturbed m fmt config x B id)
    (hp : m.updatePins fmt config = .ok p) (hu : updateSessions config p m.sessions = .ok m')
    (hout : (x.2.declaredAttr fmt).output = true) (hdefault : (x.2.declaredAttr fmt).outOnDemand = false)
    (hlater : (∀ y ∈ B, y.1.id ≠ some id) ∧
      ∀ pin ∈ (PinDeclaration.model fmt).left m.pins config.nodes, pin.id ≠ some id)
    (hfree : ∀ s ∈ m'.sessions, s.assigned ≠ some id) : AsFresh fmt config id (m'.pio id) := by
  obtain ⟨r, hr⟩ := agree_of_configured hx hp (by simp [hdefault]) hlater
  have hset : m'.pio id = (r.configure id.bank (x.2.declaredAttr fmt)).state (x.2.declaredAttr fmt).defaultState := by
    rcases hx.handleConfig_at hp hu hun.tally hfree with ⟨hidle, hat⟩ | ⟨-, hat⟩
    · have hzero : x.1.refCount = 0 := by
        have hcount : m.sessions.countP (·.on (x.1.declare fmt x.2)) = 0 := by
          rw [List.countP_eq_zero]
          intro s hs
          simp [hidle s hs]
        have htally := hun.tally (.inl hout)
        rw [hcount] at htally
        exact htally
      rw [hat, hr, if_pos ⟨hzero, hout⟩]
    · have hattr : (x.1.declare fmt x.2).attr = x.2.declaredAttr fmt := rfl
      rw [hat, PinDeclaration.retired, hattr, if_pos hout, if_neg (by simp [hdefault]), hr]
      split
      · exact PinRegs.state_state _ _
      · rfl
  refine hx.asFresh ?_ fun _ _ => ?_
  · rw [hset, PinRegs.programmed, hout, hdefault]
    exact (PinRegs.agree_configure _ _ _ _).state _
  · rw [hset, PinRegs.programmed, hout, hdefault]
    exact PinRegs.data_state _ _ (defaultState_ne hx.declared hdefault)

/-- A pin of another function is configured. -/
theorem asFresh_of_function (hx : DeclaredBy fmt m config id A x B) (hun : Undisturbed m fmt config x B id)
    (hp : m.updatePins fmt config = .ok p) (hu : updateSessions config p m.sessions = .ok m')
    (hout : (x.2.declaredAttr fmt).output = false)
    (hlater : (∀ y ∈ B, y.1.id ≠ some id) ∧
      ∀ pin ∈ (PinDeclaration.model fmt).left m.pins config.nodes, pin.id ≠ some id)
    (hfree : ∀ s ∈ m'.sessions, s.assigned ≠ some id) : AsFresh fmt config id (m'.pio id) := by
  obtain ⟨r, hr⟩ := agree_of_configured hx hp (by simp [hout]) hlater
  have hsame : m'.pio id = p.pio id := by
    rcases hx.handleConfig_at hp hu hun.tally hfree with ⟨-, hat⟩ | ⟨hused, hat⟩
    · exact hat
    · cases hirq : (x.2.declaredAttr fmt).irq with
      | true =>
        obtain ⟨s, hs, hlast⟩ := hun.irq hirq hused
        obtain ⟨s', hs', ha⟩ := exists_assigned hp hu hs hlast
        exact absurd ha (hfree s' hs')
      | false =>
        have hattr : (x.1.declare fmt x.2).attr = x.2.declaredAttr fmt := rfl
        rw [hat, PinDeclaration.retired, hattr]
        simp [hout, hirq]
  refine hx.asFresh ?_ (by simp [hout])
  rw [hsame, hr, PinRegs.programmed]
  simp only [hout, Bool.false_and, Bool.false_eq_true, and_false, if_false]
  exact PinRegs.agree_configure _ _ _ _

/-- A pin that one node declares is as in a driver that starts with the configuration. -/
theorem Tidy.asFresh (ht : m.Tidy fmt) (hx : DeclaredBy fmt m config id A x B)
    (hun : Undisturbed m fmt config x B id) (hp : m.updatePins fmt config = .ok p)
    (hu : updateSessions config p m.sessions = .ok m') (hfree : ∀ s ∈ m'.sessions, s.assigned ≠ some id) :
    AsFresh fmt config id (m'.pio id) := by
  cases hdemand : (x.2.declaredAttr fmt).output && (x.2.declaredAttr fmt).outOnDemand with
  | true =>
    have hdisabled : (Registers.disabled id).Disabled id.bank := ⟨rfl, rfl, fun _ => rfl⟩
    refine hx.asFresh ?_ fun _ hdefault => ?_
    · rw [PinRegs.programmed, if_pos hdemand]
      exact (ht.disabled_onDemand hx hun hp hu hdemand hfree).agree hdisabled
    · simp [hdefault] at hdemand
  | false =>
    rcases hun.later with (hon | hdisable) | hlater
    · rw [hdemand] at hon
      cases hon
    · exact asFresh_of_disable hx hun hp hu hdisable hfree
    · cases hout : (x.2.declaredAttr fmt).output with
      | false => exact asFresh_of_function hx hun hp hu hout hlater hfree
      | true =>
        rw [hout, Bool.true_and] at hdemand
        exact asFresh_of_default hx hun hp hu hout hdemand hlater hfree

/-- An update that spoils no pin leaves the registers tidy, and each pin that no session uses as in a driver
that starts with the configuration. -/
theorem Tidy.handleConfig (ht : m.Tidy fmt) (honce : config.DeclaresOnce fmt) (hun : m.Unspoiled fmt config)
    (h : m.handleConfig fmt config = .ok m') : m'.Tidy fmt ∧
    ∀ id : PinId, id.physical = true → (∀ s ∈ m'.sessions, s.assigned ≠ some id) →
      AsFresh fmt config id (m'.pio id) := by
  obtain ⟨p, hp, hu⟩ := handleConfig_ok h
  obtain ⟨hconfig, halike, -, hsettled⟩ := settled_updateSessions hu
  set pairs := (PinDeclaration.model fmt).pairs m.pins config.nodes with hpairs
  have hpins : p.pins = pairs.map fun x => x.1.declare fmt x.2 := (updatePins_ok hp).1
  have hapart : (m'.pins.map PinDeclaration.declared).Pairwise Apart := by
    rw [show m'.pins.map PinDeclaration.declared = _ from halike, declared_updatePins hp]
    exact honce
  have hsplit : ∀ x ∈ pairs, ∀ id : PinId, x.2.declaredId fmt = some id → id.physical = true →
      ∃ A B, DeclaredBy fmt m config id A x B ∧ Undisturbed m fmt config x B id := by
    intro x hx id hid hphys
    obtain ⟨A, B, hAB⟩ := List.append_of_mem hx
    exact ⟨A, B, declaredBy_of_once honce hAB hphys hid, hun A x B id hAB hid hphys⟩
  have hundeclared : ∀ id : PinId, id.physical = true → (∀ x ∈ pairs, x.2.declaredId fmt ≠ some id) →
      (m'.pio id).Disabled id.bank := by
    intro id hphys hnone
    have hno : ∀ pin ∈ p.pins, pin.id ≠ some id := by
      intro pin hpin
      obtain ⟨x, hx, rfl⟩ := List.mem_map.mp (hpins ▸ hpin)
      exact hnone x hx
    rw [updateSessions_none hu hno]
    exact disabled_of_undeclared hp hphys hnone (ht.undeclared id hphys)
  have hfound : ∀ pin' ∈ m'.pins, ∃ x ∈ pairs, (x.1.declare fmt x.2).declared = pin'.declared := by
    intro pin' hpin'
    obtain ⟨pin, hpin, he⟩ := Tidy.exists_of_mem (m := { toPins := p }) halike hpin'
    obtain ⟨x, hx, rfl⟩ := List.mem_map.mp (hpins ▸ hpin)
    exact ⟨x, hx, he⟩
  refine ⟨⟨current_handleConfig h, hsettled, hapart, ?_, ?_, ?_⟩, ?_⟩
  · refine tallied_of_accounts (accounts_updateSessions hu) fun pin hpin id hid hphys => ?_
    obtain ⟨x, hx, rfl⟩ := List.mem_map.mp (hpins ▸ hpin)
    obtain ⟨_, _, -, hundisturbed⟩ := hsplit x hx id hid hphys
    exact hundisturbed.tally
  · intro id hphys hno
    refine hundeclared id hphys fun x hx hid => ?_
    have hmem : x.1.declare fmt x.2 ∈ p.pins := hpins ▸ List.mem_map_of_mem hx
    have hmem' : (x.1.declare fmt x.2).declared ∈ m'.pins.map PinDeclaration.declared :=
      (show m'.pins.map PinDeclaration.declared = _ from halike) ▸ List.mem_map_of_mem hmem
    obtain ⟨pin, hpin, he⟩ := List.mem_map.mp hmem'
    exact hno pin hpin ((congrArg (·.2.1) he : pin.id = _).trans hid)
  · intro pin' hpin' id hid' hphys hdemand hidle
    obtain ⟨x, hx, he⟩ := hfound pin' hpin'
    have hid : x.2.declaredId fmt = some id := (congrArg (·.2.1) he).trans hid'
    have hattr : x.2.declaredAttr fmt = pin'.attr := congrArg (·.2.2) he
    obtain ⟨A, B, hby, hundisturbed⟩ := hsplit x hx id hid hphys
    refine ht.disabled_onDemand hby hundisturbed hp hu (hattr ▸ hdemand) fun s hs ha => ?_
    have hon := on_of_assigned hapart (hsettled s hs) hphys ha hpin' hid'
    rw [hidle s hs] at hon
    cases hon
  · intro id hphys hfree
    by_cases hdeclared : ∃ x ∈ pairs, x.2.declaredId fmt = some id
    · obtain ⟨x, hx, hid⟩ := hdeclared
      obtain ⟨A, B, hby, hundisturbed⟩ := hsplit x hx id hid hphys
      exact ht.asFresh hby hundisturbed hp hu hfree
    · have hnone : ∀ x ∈ pairs, x.2.declaredId fmt ≠ some id := fun x hx hid => hdeclared ⟨x, hx, hid⟩
      have hnodes : ∀ n ∈ config.nodes.filter PinDeclaration.typeMatches, n.declaredId fmt ≠ some id := by
        have hsnd : pairs.map Prod.snd = config.nodes.filter PinDeclaration.typeMatches := ListModel.pairs_snd
        intro n hn
        rw [← hsnd] at hn
        obtain ⟨x, hx, rfl⟩ := List.mem_map.mp hn
        exact hnone x hx
      refine ⟨(hundeclared id hphys hnone).agree (freshly_undeclared hphys hnodes), ?_⟩
      intro node hnode htype hid
      exact absurd hid (hnodes node (List.mem_filter.mpr ⟨hnode, htype⟩))

-- ---------------------------------------------------------------------------
-- Runs
-- ---------------------------------------------------------------------------

/-- An update leaves each pin that no session uses as in a driver that starts with the configuration. -/
def Restores (fmt : Formats) (r : Except Failure Main) (e : Event) : Prop :=
  ∀ m m' config, r = .ok m → e = .config config → m.handle fmt e = .ok m' →
    ∀ id : PinId, id.physical = true → (∀ s ∈ m'.sessions, s.assigned ≠ some id) →
      AsFresh fmt config id (m'.pio id)

/-- An update that completes spoils no pin. -/
def Spares (fmt : Formats) (r : Except Failure Main) (e : Event) : Prop :=
  ∀ m config, r = .ok m → e = .config config → m.Completes fmt config → m.Unspoiled fmt config

theorem tidy_start : ∀ m, start = .ok m → m.Tidy fmt := by
  rintro m ⟨⟩
  have hdisabled : ∀ id : PinId, (Registers.disabled id).Disabled id.bank := fun _ => ⟨rfl, rfl, fun _ => rfl⟩
  exact ⟨rfl, by simp, .nil, by simp, fun id _ _ => hdisabled id, by simp⟩

/-- Every event keeps the registers tidy, unless it is an update that spoils a pin. -/
theorem Tidy.handle {e : Event} (ht : m.Tidy fmt) (honce : ∀ config, e = .config config → config.DeclaresOnce fmt)
    (hspares : Spares fmt (.ok m) e) (h : m.handle fmt e = .ok m') : m'.Tidy fmt := by
  cases e with
  | config config =>
    have hcompletes : m.Completes fmt config := handleConfig_isOk_iff.mp ⟨m', h⟩
    exact (ht.handleConfig (honce config rfl) (hspares m config rfl rfl hcompletes) h).1
  | request kind label => exact ht.request h
  | close n =>
    cases h
    exact ht.close
  | state n level =>
    cases h
    exact ht.state

/-- In every run whose updates spoil no pin, a pin that no session uses is programmed by the last
configuration alone. -/
theorem registers_restored {es : List Event} (honce : ∀ config, .config config ∈ es → config.DeclaresOnce fmt)
    (h : (system fmt).Along (Spares fmt) start es) : (system fmt).Along (Restores fmt) start es := by
  have hboth := h.and_forall (D := fun e => ∀ config, e = .config config → config.DeclaresOnce fmt)
    fun e he config hconfig => honce config (hconfig ▸ he)
  refine (System.along_and_of_invariant (I := fun r => ∀ m, r = .ok m → m.Tidy fmt) ?_ tidy_start hboth).mono ?_
  · rintro (f | m) e hI ⟨hspares, hone⟩ m' hnext
    · cases hnext
    · exact (hI m rfl).handle hone hspares hnext
  · rintro r e ⟨hI, hspares, hone⟩ m m' config rfl rfl hok
    have hcompletes : m.Completes fmt config := handleConfig_isOk_iff.mp ⟨m', hok⟩
    exact ((hI m rfl).handleConfig (hone config rfl) (hspares m config rfl rfl hcompletes) hok).2

/-- Pin 1 of bank B. -/
def pinB1 : PinId := { bank := .b, index := 1 }

def nodeB1 (type name : String) (default : Option String) : Node where
  type := type.toList
  name := some name.toList
  bank := some "B".toList
  index := some "1".toList
  default := default.map (·.toList)

/-- One node declares the pin. -/
def declares (type name : String) (default : Option String) : Config := { nodes := [nodeB1 type name default] }

theorem declares_once (type name : String) (default : Option String) :
    (declares type name default).DeclaresOnce fmt := by
  unfold Config.DeclaresOnce declares
  cases h : PinDeclaration.typeMatches (nodeB1 type name default) <;> simp [h]

theorem once_of_mem {a b : Config} (ha : a.DeclaresOnce fmt) (hb : b.DeclaresOnce fmt) :
    ∀ config, Event.config config ∈ [.config a, .config b] → config.DeclaresOnce fmt := by
  intro config hconfig
  rcases List.mem_cons.mp hconfig with h | h
  · cases h
    exact ha
  · cases List.mem_singleton.mp h
    exact hb

/-- An update with one node, for a driver that no session uses. -/
theorem unspoiled_singleton {pin : PinDeclaration} {node : Node} (hsessions : m.sessions = [])
    (hpairs : (PinDeclaration.model fmt).pairs m.pins config.nodes = [(pin, node)])
    (hleft : (PinDeclaration.model fmt).left m.pins config.nodes = [])
    (hdemand : (node.declaredAttr fmt).outOnDemand = false) (hcount : pin.refCount = 0) :
    m.Unspoiled fmt config := by
  intro A x B id hAB hid hphys
  rw [hpairs] at hAB
  obtain ⟨rfl, rfl, rfl⟩ : A = [] ∧ x = (pin, node) ∧ B = [] := by
    cases A with
    | nil => simpa [eq_comm] using hAB
    | cons y A => simp at hAB
  refine ⟨.inr ⟨by simp, by simp [hleft]⟩, ?_, ?_, ?_⟩
  · simp [hdemand]
  · intro _
    rw [hsessions]
    exact hcount
  · rintro - ⟨s, hs, -⟩
    rw [hsessions] at hs
    cases hs

/-- The level of a default output changes. -/
theorem level_restored : (system plainFormats).Along (Restores plainFormats) start
    [.config (declares "out" "a" (some "no")), .config (declares "out" "a" (some "yes"))] := by
  refine registers_restored (once_of_mem (declares_once _ _ _) (declares_once _ _ _)) ⟨?_, ?_, trivial⟩
  · rintro m config ⟨⟩ ⟨⟩ -
    exact unspoiled_singleton rfl rfl rfl rfl rfl
  · rintro m config ⟨⟩ ⟨⟩ -
    exact unspoiled_singleton rfl rfl rfl rfl rfl

/-- The function of the pin after the two updates, and as a driver programs it that starts with the
second. -/
def functions (before after : Config) : Option (Function × Function) :=
  match (system plainFormats).run start [.config before, .config after] with
  | .ok m => some ((m.pio pinB1).cfg, (freshly plainFormats after pinB1).cfg)
  | .error _ => none

/-- A pin that is renamed or changes its direction is disabled, and one that becomes an output on demand is
still driven. -/
theorem not_restored : ¬ (∀ es, (∀ config, .config config ∈ es → config.DeclaresOnce plainFormats) →
      (system plainFormats).Along (Restores plainFormats) start es) ∧
    functions (declares "in" "a" none) (declares "in" "b" none) = some (.disable, .input) ∧
    functions (declares "in" "a" none) (declares "out" "a" (some "no")) = some (.disable, .output) ∧
    functions (declares "out" "a" (some "no")) (declares "out" "a" none) = some (.output, .disable) := by
  refine ⟨fun h => ?_, by rfl, by rfl, by rfl⟩
  have hrun := h [.config (declares "in" "a" none), .config (declares "in" "b" none)]
    (once_of_mem (declares_once _ _ _) (declares_once _ _ _))
  have hfresh := hrun.2.1 _ _ _ rfl rfl rfl pinB1 rfl (by simp)
  have hcfg := hfresh.agree.cfg
  cases hcfg

end Main

end Allwinner.Pio
