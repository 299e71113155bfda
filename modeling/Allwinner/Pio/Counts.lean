import Allwinner.Pio.Robust

/-!
# Reference counts

A declaration counts the sessions that are assigned to its pin. Sessions come, go
and are assigned anew without a change of the difference between the two; an update
of the declarations may change it, since a declaration keeps its count when it moves
to another pin and a new one starts from zero.
-/

namespace Allwinner.Pio

open Library (ListModel System)
open Modem (Text)

variable {fmt : Formats}

/-- The session is assigned to the pin of the declaration, for its direction. -/
def Session.on (pin : PinDeclaration) (s : Session) : Bool :=
  s.assigned.any fun id => pin.matchesPin id s.kind.direction

theorem Session.on_iff {pin : PinDeclaration} {s : Session} :
    s.on pin = true ↔ ∃ id, s.assigned = some id ∧ pin.matchesPin id s.kind.direction = true := by
  unfold Session.on
  cases s.assigned <;> simp

/-- The number a truth value counts for. -/
def one (b : Bool) : UInt32 := if b then 1 else 0

@[simp] theorem one_false : one false = 0 := rfl

namespace PinDeclaration

variable {pin : PinDeclaration} {s : Session} {new : Option PinId} {sessions : List Session}

/-- By how much the count exceeds the number of sessions assigned to the pin. -/
def excess (sessions : List Session) (pin : PinDeclaration) : UInt32 :=
  pin.refCount - .ofNat (sessions.countP (·.on pin))

theorem on_congr {pin' : PinDeclaration} (h : pin'.declared = pin.declared) (s : Session) : s.on pin' = s.on pin := by
  simp only [declared, Prod.mk.injEq] at h
  simp [Session.on, matchesPin, h.2.1, h.2.2]

theorem ofNat_countP_cons (s : Session) (sessions : List Session) (pin : PinDeclaration) :
    UInt32.ofNat ((s :: sessions).countP (·.on pin)) = .ofNat (sessions.countP (·.on pin)) + one (s.on pin) := by
  rw [List.countP_cons, UInt32.ofNat_add]
  congr 1
  unfold one
  split <;> rfl

theorem excess_eq (pre post : List Session) (s : Session) (pin : PinDeclaration) :
    pin.excess (pre ++ s :: post) = pin.excess (pre ++ post) - one (s.on pin) := by
  have hperm : (pre ++ s :: post).countP (·.on pin) = (s :: (pre ++ post)).countP (·.on pin) :=
    List.perm_middle.countP_eq _
  rw [excess, excess, hperm, ofNat_countP_cons]
  grind

theorem excess_of_declared {pin' : PinDeclaration} (h : pin'.declared = pin.declared) (sessions : List Session) :
    pin'.excess sessions = pin.excess sessions + (pin'.refCount - pin.refCount) := by
  have hon : sessions.countP (·.on pin') = sessions.countP (·.on pin) :=
    List.countP_congr fun s _ => by rw [on_congr h]
  rw [excess, excess, hon]
  grind

theorem excess_eq_zero : pin.excess sessions = 0 ↔ pin.refCount = .ofNat (sessions.countP (·.on pin)) := by
  unfold excess
  grind

theorem counted_add (id : PinId) (dir : Direction) (pin : PinDeclaration) : pin.counted id dir (· + 1) =
    { pin with refCount := pin.refCount + one (pin.matchesPin id dir) } := by
  unfold counted one
  split <;> simp [*]

theorem counted_sub (id : PinId) (dir : Direction) (pin : PinDeclaration) : pin.counted id dir (· - 1) =
    { pin with refCount := pin.refCount - one (pin.matchesPin id dir) } := by
  unfold counted one
  split <;> simp [*]

/-- The declaration once the session has another pin. -/
def recounted (s : Session) (new : Option PinId) (pin : PinDeclaration) : PinDeclaration :=
  { pin with refCount := pin.refCount - one (s.on pin) + one (Session.on pin { s with assigned := new }) }

theorem excess_recounted (pre post : List Session) :
    (pin.recounted s new).excess (pre ++ { s with assigned := new } :: post) = pin.excess (pre ++ s :: post) := by
  have hd : (pin.recounted s new).declared = pin.declared := rfl
  rw [excess_of_declared hd, excess_eq, excess_eq]
  simp only [recounted]
  grind

end PinDeclaration

namespace Pins

variable {p : Pins} {s : Session} {new : Option PinId}

theorem pins_reassign : (p.reassign s new).pins = p.pins.map (PinDeclaration.recounted s new) := by
  have hsame : s.assigned = new → p.pins = p.pins.map (PinDeclaration.recounted s new) := by
    rintro rfl
    have : ∀ pin ∈ p.pins, PinDeclaration.recounted s s.assigned pin = pin := by
      intro pin _
      simp [PinDeclaration.recounted]
    rw [List.map_congr_left this, List.map_id']
  unfold reassign
  dsimp only
  split
  · rename_i h
    exact hsame h
  · cases ha : s.assigned with
    | none =>
      cases new with
      | none => exact hsame ha
      | some new =>
        dsimp only
        rw [pins_acquirePin]
        refine List.map_congr_left fun pin _ => ?_
        simp [PinDeclaration.counted_add, PinDeclaration.recounted, ha, Session.on]
    | some old =>
      cases new with
      | none =>
        dsimp only
        rw [pins_releasePin]
        refine List.map_congr_left fun pin _ => ?_
        simp [PinDeclaration.counted_sub, PinDeclaration.recounted, ha, Session.on]
      | some new =>
        dsimp only
        rw [pins_acquirePin, pins_releasePin, List.map_map]
        refine List.map_congr_left fun pin _ => ?_
        simp [PinDeclaration.counted_add, PinDeclaration.counted_sub, PinDeclaration.recounted,
          PinDeclaration.matchesPin, ha, Session.on]

end Pins

-- ---------------------------------------------------------------------------
-- Sessions come, go and are assigned anew
-- ---------------------------------------------------------------------------

/-- What is declared, with the excess of each declaration. -/
def accounts (sessions : List Session) (pins : List PinDeclaration) :
    List ((Name × Option PinId × Attr) × UInt32) :=
  pins.map fun pin => (pin.declared, pin.excess sessions)

/-- The count of a declaration is the number of sessions assigned to its pin, as a 32-bit number. -/
def Counted (sessions : List Session) (pins : List PinDeclaration) : Prop :=
  ∀ pin ∈ pins, pin.id.isSome → pin.refCount = .ofNat (sessions.countP (·.on pin))

theorem counted_iff {sessions : List Session} {pins : List PinDeclaration} :
    Counted sessions pins ↔ ∀ x ∈ accounts sessions pins, x.1.2.1.isSome → x.2 = 0 := by
  unfold Counted accounts
  simp only [List.forall_mem_map, PinDeclaration.excess_eq_zero, PinDeclaration.declared]

theorem counted_of_accounts {sessions sessions' : List Session} {pins pins' : List PinDeclaration}
    (h : accounts sessions' pins' = accounts sessions pins) : Counted sessions' pins' ↔ Counted sessions pins := by
  rw [counted_iff, counted_iff, h]

theorem accounts_map {sessions sessions' : List Session} {pins : List PinDeclaration}
    {f : PinDeclaration → PinDeclaration} (hdeclared : ∀ pin, (f pin).declared = pin.declared)
    (hexcess : ∀ pin, (f pin).excess sessions' = pin.excess sessions) :
    accounts sessions' (pins.map f) = accounts sessions pins := by
  simp [accounts, hdeclared, hexcess]

theorem accounts_reassign {pre post : List Session} {s : Session} {p : Pins} (new : Option PinId) :
    accounts (pre ++ { s with assigned := new } :: post) (p.reassign s new).pins =
      accounts (pre ++ s :: post) p.pins := by
  rw [Pins.pins_reassign]
  exact accounts_map (fun _ => rfl) fun _ => PinDeclaration.excess_recounted pre post

/-- The assignment of sessions keeps the accounts. -/
theorem accounts_updateSessions {config : Config} {sessions : List Session} {p : Pins} {m : Main}
    (hok : Main.updateSessions config p sessions = .ok m) :
    accounts m.sessions m.pins = accounts sessions p.pins :=
  updateSessions_induct (J := fun sessions' p' => accounts sessions' p'.pins = accounts sessions p.pins)
    (fun _ _ _ _ _ hJ _ => (accounts_reassign _).trans hJ) rfl hok

theorem accounts_createSession {sessions : List Session} {p : Pins} {id : PinId} {kind : SessionKind}
    {label : Text} :
    accounts (sessions ++ [{ kind, label, assigned := some id }]) (p.acquirePin id kind.direction).pins =
      accounts sessions p.pins := by
  rw [Pins.pins_acquirePin]
  refine accounts_map (fun pin => PinDeclaration.declared_counted pin) fun pin => ?_
  rw [PinDeclaration.excess_of_declared (PinDeclaration.declared_counted pin), PinDeclaration.excess_eq,
    List.append_nil, PinDeclaration.counted_add]
  simp only [Session.on, Option.any_some]
  grind

theorem excess_eraseIdx {sessions : List Session} {n : Nat} {s : Session} (h : sessions[n]? = some s)
    (pin : PinDeclaration) :
    pin.excess (sessions.eraseIdx n) = pin.excess sessions + one (s.on pin) := by
  obtain ⟨hn, rfl⟩ := List.getElem?_eq_some_iff.mp h
  have hsplit : pin.excess sessions =
      pin.excess (sessions.take n ++ sessions[n] :: sessions.drop (n + 1)) := by
    rw [← List.drop_eq_getElem_cons hn, List.take_append_drop]
  rw [hsplit, PinDeclaration.excess_eq, List.eraseIdx_eq_take_drop_succ]
  grind

theorem accounts_closeSession (m : Main) (n : Nat) :
    accounts (m.closeSession n).sessions (m.closeSession n).pins = accounts m.sessions m.pins := by
  unfold Main.closeSession
  cases hs : m.sessions[n]? with
  | none => rfl
  | some s =>
    dsimp only
    cases ha : s.assigned with
    | none =>
      have hon : ∀ pin, s.on pin = false := by simp [Session.on, ha]
      simp [accounts, excess_eraseIdx hs, hon]
    | some id =>
      dsimp only
      rw [Pins.pins_releasePin]
      refine accounts_map (fun pin => PinDeclaration.declared_counted pin) fun pin => ?_
      rw [PinDeclaration.excess_of_declared (PinDeclaration.declared_counted pin), excess_eraseIdx hs,
        PinDeclaration.counted_sub]
      simp only [Session.on, ha, Option.any_some]
      grind

-- ---------------------------------------------------------------------------
-- No count falls below zero
-- ---------------------------------------------------------------------------

theorem Counted.ne_zero {sessions : List Session} {pins : List PinDeclaration} {s : Session}
    {pin : PinDeclaration} (h : Counted sessions pins) (hlen : sessions.length < 2 ^ 32) (hs : s ∈ sessions)
    (hpin : pin ∈ pins) (hon : s.on pin = true) : pin.refCount ≠ 0 := by
  have hid : pin.id.isSome := by
    obtain ⟨id, -, hm⟩ := Session.on_iff.mp hon
    simp [(PinDeclaration.matchesPin_iff.mp hm).1]
  have hpos : 0 < sessions.countP (·.on pin) := List.countP_pos_iff.mpr ⟨s, hs, hon⟩
  have hle : sessions.countP (·.on pin) ≤ sessions.length := List.countP_le_length
  rw [h pin hpin hid]
  intro h0
  have hzero := congrArg UInt32.toNat h0
  rw [UInt32.toNat_ofNat_of_lt' (by simp only [UInt32.size]; omega)] at hzero
  exact absurd hzero (Nat.pos_iff_ne_zero.mp hpos)

/-- With fewer than 2^32 sessions the count is the number of sessions itself. -/
theorem Counted.toNat {sessions : List Session} {pins : List PinDeclaration} {pin : PinDeclaration}
    (h : Counted sessions pins) (hlen : sessions.length < 2 ^ 32) (hpin : pin ∈ pins) (hid : pin.id.isSome) :
    pin.refCount.toNat = sessions.countP (·.on pin) := by
  have hle : sessions.countP (·.on pin) ≤ sessions.length := List.countP_le_length
  rw [h pin hpin hid, UInt32.toNat_ofNat_of_lt' (by simp only [UInt32.size]; omega)]

/-- No release during the update of a root finds a count of zero. -/
def Pins.Unwrapped (config : Config) (kind : SessionKind) : List Session → Pins → Prop
  | [], _ => True
  | s :: sessions, p =>
    if s.kind = kind then
      match p.assignedPin config s.label kind.direction with
      | .error _ => True
      | .ok new =>
        (s.assigned ≠ new → ∀ pin ∈ p.pins, s.on pin = true → pin.refCount ≠ 0) ∧
          Unwrapped config kind sessions (p.reassign s new)
    else Unwrapped config kind sessions p

/-- No release finds a count of zero while the roots are updated. -/
def Main.Unwrapped (config : Config) (p : Pins) (sessions : List Session) : Prop :=
  p.Unwrapped config .pinState sessions ∧
  ∀ s₁ p₁, p.updateAssignments config .pinState sessions = .ok (s₁, p₁) →
    p₁.Unwrapped config .pinControl s₁ ∧
    ∀ s₂ p₂, p₁.updateAssignments config .pinControl s₁ = .ok (s₂, p₂) → p₂.Unwrapped config .irq s₂

theorem Counted.unwrapped {config : Config} {kind : SessionKind} (pre : List Session) {sessions : List Session}
    {p : Pins} (h : Counted (pre ++ sessions) p.pins) (hlen : (pre ++ sessions).length < 2 ^ 32) :
    p.Unwrapped config kind sessions := by
  induction sessions generalizing pre p with
  | nil => trivial
  | cons s sessions ih =>
    unfold Pins.Unwrapped
    split
    · rename_i hkind
      subst hkind
      cases p.assignedPin config s.label s.kind.direction with
      | error e => trivial
      | ok new =>
        refine ⟨fun _ pin hpin hon => h.ne_zero hlen (by simp) hpin hon, ?_⟩
        have hnext := (counted_of_accounts (accounts_reassign new)).mpr h
        rw [List.append_cons] at hnext
        exact ih _ hnext (by simpa using hlen)
    · rw [List.append_cons] at h hlen
      exact ih _ h hlen

theorem Counted.unwrapped_updateSessions {config : Config} {p : Pins} {sessions : List Session}
    (h : Counted sessions p.pins) (hlen : sessions.length < 2 ^ 32) : Main.Unwrapped config p sessions := by
  have hnext : ∀ (kind : SessionKind) (sessions sessions' : List Session) (p p' : Pins),
      p.updateAssignments config kind sessions = .ok (sessions', p') → Counted sessions p.pins →
      sessions.length < 2 ^ 32 → Counted sessions' p'.pins ∧ sessions'.length < 2 ^ 32 := by
    intro kind sessions sessions' p p' hok hc hlen
    have haccounts : accounts sessions' p'.pins = accounts sessions p.pins :=
      updateAssignments_induct (J := fun s' p' => accounts s' p'.pins = accounts sessions p.pins)
        (fun _ _ _ _ _ hJ _ => (accounts_reassign _).trans hJ) [] rfl hok
    have hlabels := congrArg List.length (settled_updateAssignments hok).2.1
    simp only [List.length_map] at hlabels
    exact ⟨(counted_of_accounts haccounts).mpr hc, hlabels ▸ hlen⟩
  refine ⟨h.unwrapped [] hlen, fun s₁ p₁ h₁ => ?_⟩
  obtain ⟨hc₁, hlen₁⟩ := hnext _ _ _ _ _ h₁ h hlen
  refine ⟨hc₁.unwrapped [] hlen₁, fun s₂ p₂ h₂ => ?_⟩
  obtain ⟨hc₂, hlen₂⟩ := hnext _ _ _ _ _ h₂ hc₁ hlen₁
  exact hc₂.unwrapped [] hlen₂

-- ---------------------------------------------------------------------------
-- The last session closes
-- ---------------------------------------------------------------------------

/-- The registers of a disabled pin. -/
structure PinRegs.Disabled (bank : Bank) (r : PinRegs) : Prop where
  cfg : r.cfg = .disable
  pull : r.pull = .disable
  irqTrigger : bank.hasIrqRegs = true → r.irqTrigger = .rising

theorem PinRegs.disabled_configure (bank : Bank) (r : PinRegs) : (r.configure bank .disabled).Disabled bank :=
  ⟨rfl, rfl, fun h => if_pos h⟩

theorem PinRegs.not_disabled_state (bank : Bank) (level : Level) (r : PinRegs) : ¬ (r.state level).Disabled bank := by
  intro h
  have := h.cfg
  cases level <;> cases this

theorem Attr.output_iff {a : Attr} : a.output = true ↔ a.function.direction = .output := by
  unfold Attr.output Function.direction
  split <;> simp [*]

namespace PinDeclaration

variable {pin : PinDeclaration} {id : PinId} {dir : Direction} {pins : List PinDeclaration}

/-- The pin is disabled unless a session uses it. -/
def onlyUsed (pin : PinDeclaration) : Bool := pin.attr.output && pin.attr.outOnDemand || pin.attr.irq

/-- What the last release makes of the registers of the pin. -/
def retired (bank : Bank) (r : PinRegs) (pin : PinDeclaration) : PinRegs :=
  if pin.attr.output then
    if pin.attr.outOnDemand then r.configure bank .disabled else r.state pin.attr.defaultState
  else if pin.attr.irq then r.configure bank .disabled
  else r

theorem not_irq_of_output (h : pin.attr.output = true) : pin.attr.irq = false := by
  simp only [Attr.output, decide_eq_true_eq] at h
  simp [Attr.irq, h]

theorem release_snd (pio : Registers) (hphys : id.physical = true) : (pin.release id pio).2 id =
    if pin.refCount - 1 > 0 then pio id else pin.retired id.bank (pio id) := by
  unfold release retired
  dsimp only
  split
  · rfl
  · by_cases hout : pin.attr.output
    · simp only [hout, if_true, not_irq_of_output hout, Bool.false_eq_true, if_false]
      split <;> exact Registers.write_self hphys _
    · simp only [hout, Bool.false_eq_true, if_false]
      split
      · exact Registers.write_self hphys _
      · rfl

/-- The last session leaves the registers as the declarations of the pin say, one after the other. -/
theorem releasePin_last {p : Pins} (hphys : id.physical = true)
    (hone : ∀ pin ∈ p.pins, pin.matchesPin id dir = true → pin.refCount = 1) :
    (p.releasePin id dir).pio id = (p.pins.filter (·.matchesPin id dir)).foldl (retired id.bank) (p.pio id) := by
  unfold Pins.releasePin
  dsimp only
  generalize p.pio = pio
  generalize p.pins = pins at hone
  induction pins generalizing pio with
  | nil => rfl
  | cons pin pins ih =>
    have hrest := fun pio => ih pio fun pin' hpin' => hone pin' (.tail _ hpin')
    simp only [withPinDeclaration]
    by_cases hm : pin.matchesPin id dir = true
    · have hcount : pin.refCount = 1 := hone pin (.head _) hm
      simp only [List.filter_cons, hm, if_true, List.foldl_cons, hrest]
      rw [release_snd pio hphys, hcount, if_neg (by decide)]
    · simp only [List.filter_cons, hm, Bool.false_eq_true, if_false, hrest]

theorem disabled_foldl {bank : Bank} {r : PinRegs} (hin : ∀ pin ∈ pins, pin.attr.output = false)
    (h : (∃ pin ∈ pins, pin.attr.irq = true) ∨ r.Disabled bank) :
    (pins.foldl (retired bank) r).Disabled bank := by
  induction pins generalizing r with
  | nil => simpa using h
  | cons pin pins ih =>
    have hout : pin.attr.output = false := hin pin (.head _)
    rw [List.foldl_cons]
    refine ih (fun pin' hpin' => hin pin' (.tail _ hpin')) ?_
    unfold retired
    rw [hout]
    by_cases hirq : pin.attr.irq = true
    · simp only [Bool.false_eq_true, if_false, hirq, if_true]
      exact .inr (PinRegs.disabled_configure bank r)
    · simp only [Bool.false_eq_true, if_false, hirq]
      simpa [hirq] using h

/-- Where a declaration of the pin wants it disabled, it is exactly if the last of them does, or
does not care. -/
theorem disabled_retired_iff {bank : Bank} {r : PinRegs}
    (hpins : ∀ pin ∈ pins, pin.matchesPin id dir = true) (hused : ∃ pin ∈ pins, pin.onlyUsed = true) :
    (pins.foldl (retired bank) r).Disabled bank ↔
      ∀ last ∈ pins.getLast?, last.attr.output = true → last.attr.outOnDemand = true := by
  have hdir : ∀ pin ∈ pins, pin.attr.output = true ↔ dir = .output := fun pin hpin => by
    rw [Attr.output_iff, (matchesPin_iff.mp (hpins pin hpin)).2]
  rcases List.eq_nil_or_concat pins with rfl | ⟨init, last, rfl⟩
  · simp at hused
  · rw [List.concat_eq_append] at hused hdir ⊢
    simp only [List.getLast?_concat, Option.mem_def, Option.some.injEq, forall_eq']
    by_cases hout : last.attr.output = true
    · rw [List.foldl_append, List.foldl_cons, List.foldl_nil, retired, if_pos hout, forall_prop_of_true hout]
      by_cases hdemand : last.attr.outOnDemand = true
      · rw [if_pos hdemand]
        exact iff_of_true (PinRegs.disabled_configure _ _) hdemand
      · rw [if_neg hdemand]
        exact iff_of_false (PinRegs.not_disabled_state _ _ _) hdemand
    · have hnot : ∀ pin ∈ init ++ [last], pin.attr.output = false := by
        intro pin hpin
        rw [Bool.eq_false_iff]
        exact fun h => hout ((hdir last (by simp)).mpr ((hdir pin hpin).mp h))
      refine iff_of_true (disabled_foldl hnot (.inl ?_)) fun h => absurd h hout
      obtain ⟨pin, hpin, hu⟩ := hused
      exact ⟨pin, hpin, by simpa [onlyUsed, hnot pin hpin] using hu⟩

theorem on_eq_uses {s : Session} (h : pin.matchesPin id dir = true) : s.on pin = s.uses id dir := by
  obtain ⟨hid, rfl⟩ := matchesPin_iff.mp h
  rw [Bool.eq_iff_iff, Session.on_iff]
  simp only [matchesPin_iff, hid, Option.some.injEq, Session.uses, Bool.and_eq_true, decide_eq_true_eq]
  constructor
  · rintro ⟨id', ha, rfl, hk⟩
    exact ⟨ha, hk.symm⟩
  · rintro ⟨ha, hk⟩
    exact ⟨id, ha, rfl, hk.symm⟩

end PinDeclaration

-- ---------------------------------------------------------------------------
-- Runs
-- ---------------------------------------------------------------------------

namespace Main

variable {m m' : Main} {n : Nat} {id : PinId} {dir : Direction}

/-- The session that closes is the last one of a pin that is disabled unless a session uses it. -/
structure ClosesLast (m : Main) (n : Nat) (id : PinId) (dir : Direction) : Prop where
  physical : id.physical = true
  closes : ∃ s ∈ m.sessions[n]?, s.uses id dir = true
  last : ∀ s ∈ m.sessions.eraseIdx n, s.uses id dir = false
  onlyUsed : ∃ pin ∈ m.pins, pin.matchesPin id dir = true ∧ pin.onlyUsed = true

/-- The counts are those of the sessions, also while they are assigned anew; none falls below zero;
and the last session to close leaves its pin disabled. -/
def Accurate (fmt : Formats) (r : Except Failure Main) (e : Event) : Prop :=
  ∀ m m', r = .ok m → m.handle fmt e = .ok m' → Counted m'.sessions m'.pins ∧
    (m'.sessions.length < 2 ^ 32 → ∀ pin ∈ m'.pins, pin.id.isSome →
      pin.refCount.toNat = m'.sessions.countP (·.on pin)) ∧
    match e with
    | .config config => m.sessions.length < 2 ^ 32 → ∀ p, m.updatePins fmt config = .ok p →
        Unwrapped config p m.sessions
    | .close n => (m.sessions.length < 2 ^ 32 → ∀ s ∈ m.sessions[n]?, ∀ pin ∈ m.pins, s.on pin = true →
        pin.refCount ≠ 0) ∧ ∀ id dir, m.ClosesLast n id dir → (m'.pio id).Disabled id.bank
    | .request _ _ => True
    | .state _ _ => True

/-- An update that gets through lets each node take a declaration that has counted the sessions assigned
to the node's pin, and of the declarations of a pin whose last session closes the last one is no default
output if any is on demand. -/
def Keeps (fmt : Formats) (r : Except Failure Main) (e : Event) : Prop :=
  ∀ m, r = .ok m → match e with
    | .config config => m.Completes fmt config →
        ∀ x ∈ (PinDeclaration.model fmt).pairs m.pins config.nodes, (x.2.declaredId fmt).isSome →
          x.1.refCount = .ofNat (m.sessions.countP (·.on (x.1.declare fmt x.2)))
    | .close n => ∀ id dir, m.ClosesLast n id dir →
        ∀ last ∈ (m.pins.filter (·.matchesPin id dir)).getLast?, last.attr.output = true →
          last.attr.outOnDemand = true
    | .request _ _ => True
    | .state _ _ => True

/-- An update keeps the counts exactly if each node takes a declaration with the right count. -/
theorem counted_handleConfig {config : Config} (h : m.handleConfig fmt config = .ok m') :
    Counted m'.sessions m'.pins ↔
      ∀ x ∈ (PinDeclaration.model fmt).pairs m.pins config.nodes, (x.2.declaredId fmt).isSome →
        x.1.refCount = .ofNat (m.sessions.countP (·.on (x.1.declare fmt x.2))) := by
  obtain ⟨p, hp, hu⟩ := handleConfig_ok h
  rw [counted_of_accounts (accounts_updateSessions hu), (updatePins_ok hp).1]
  simp only [Counted, List.forall_mem_map]
  rfl

theorem disabled_closeSession (hc : Counted m.sessions m.pins) (hl : m.ClosesLast n id dir) :
    ((m.closeSession n).pio id).Disabled id.bank ↔
      ∀ last ∈ (m.pins.filter (·.matchesPin id dir)).getLast?, last.attr.output = true →
        last.attr.outOnDemand = true := by
  obtain ⟨s, hs, huses⟩ := hl.closes
  have hassigned : s.assigned = some id ∧ s.kind.direction = dir := by simpa [Session.uses] using huses
  have hone : ∀ pin ∈ m.pins, pin.matchesPin id dir = true → pin.refCount = 1 := by
    intro pin hpin hm
    have hid : pin.id.isSome := by simp [(PinDeclaration.matchesPin_iff.mp hm).1]
    have hzero : (m.sessions.eraseIdx n).countP (·.on pin) = 0 := by
      rw [List.countP_eq_zero]
      intro s' hs'
      simp [PinDeclaration.on_eq_uses hm, hl.last s' hs']
    have hexcess := excess_eraseIdx (Option.mem_def.mp hs) pin
    rw [PinDeclaration.excess_eq_zero.mpr (hc pin hpin hid), PinDeclaration.on_eq_uses hm, huses,
      PinDeclaration.excess, hzero] at hexcess
    simpa [one] using hexcess
  have hclose : (m.closeSession n).pio = (m.releasePin id dir).pio := by
    simp only [closeSession, Option.mem_def.mp hs, hassigned]
  rw [hclose, PinDeclaration.releasePin_last hl.physical hone]
  obtain ⟨pin, hpin, hm, hu⟩ := hl.onlyUsed
  exact PinDeclaration.disabled_retired_iff (fun pin hpin => by simpa using (List.mem_filter.mp hpin).2)
    ⟨pin, List.mem_filter.mpr ⟨hpin, hm⟩, hu⟩

theorem accurate_ok_iff {e : Event} (hc : Counted m.sessions m.pins) :
    Accurate fmt (.ok m) e ↔ Keeps fmt (.ok m) e := by
  simp only [Accurate, Keeps, Except.ok.injEq]
  cases e with
  | config config =>
    constructor
    · rintro h m₀ rfl hcompletes
      obtain ⟨m', hok⟩ := handleConfig_isOk_iff.mpr hcompletes
      exact (counted_handleConfig hok).mp (h m m' rfl hok).1
    · rintro h m₀ m' rfl hok
      have hok' : m.handleConfig fmt config = .ok m' := hok
      have hc' := (counted_handleConfig hok').mpr (h m rfl (handleConfig_isOk_iff.mp ⟨m', hok'⟩))
      refine ⟨hc', fun hlen _ hpin hid => hc'.toNat hlen hpin hid, fun hlen p hp => ?_⟩
      obtain ⟨p', hp', hu⟩ := handleConfig_ok hok'
      obtain rfl : p' = p := by simpa [hp] using hp'.symm
      exact ((counted_of_accounts (accounts_updateSessions hu)).mp hc').unwrapped_updateSessions hlen
  | request kind label =>
    refine iff_of_true ?_ fun _ _ => trivial
    rintro m₀ m' rfl hok
    have hc' : Counted m'.sessions m'.pins := by
      rcases createSession_ok hok with ⟨-, rfl⟩ | ⟨id, -, rfl⟩
      · exact hc
      · exact (counted_of_accounts accounts_createSession).mpr hc
    exact ⟨hc', fun hlen _ hpin hid => hc'.toNat hlen hpin hid, trivial⟩
  | close n =>
    constructor
    · rintro h m₀ rfl id dir hl
      exact (disabled_closeSession hc hl).mp ((h m _ rfl rfl).2.2.2 id dir hl)
    · rintro h m₀ m' rfl ⟨⟩
      have hc' := (counted_of_accounts (accounts_closeSession m n)).mpr hc
      refine ⟨hc', fun hlen _ hpin hid => hc'.toNat hlen hpin hid, fun hlen s hs pin hpin hon => ?_, ?_⟩
      · exact hc.ne_zero hlen (List.mem_of_getElem? hs) hpin hon
      · exact fun id dir hl => (disabled_closeSession hc hl).mpr (h m rfl id dir hl)
  | state n level =>
    refine iff_of_true ?_ fun _ _ => trivial
    rintro m₀ m' rfl ⟨⟩
    obtain ⟨hpins, -, hsessions⟩ := setState_fields m n level
    have hc' : Counted (m.setState n level).sessions (m.setState n level).pins := by
      rw [hpins, hsessions]
      exact hc
    exact ⟨hc', fun hlen _ hpin hid => hc'.toNat hlen hpin hid, trivial⟩

/-- In every run all counts are those of the sessions exactly if every update keeps them. -/
theorem counts_iff (fmt : Formats) (pio : Registers) (es : List Event) :
    (system fmt).Along (Accurate fmt) (init pio) es ↔ (system fmt).Along (Keeps fmt) (init pio) es := by
  refine System.along_congr (I := fun r => ∀ m, r = .ok m → Counted m.sessions m.pins) ?_ ?_ ?_
  · rintro (f | m) e hI
    · simp [Accurate, Keeps]
    · exact accurate_ok_iff (hI m rfl)
  · rintro (f | m) e hI haccurate m' hnext
    · cases hnext
    · exact (haccurate m m' rfl hnext).1
  · rintro m ⟨⟩
    simp [Counted]

/-- What remains to be counted right in a run whose events are handled so. -/
theorem counted_run {es : List Event} (h : (system fmt).Along (Accurate fmt) start es) :
    ∀ m, (system fmt).run start es = .ok m → Counted m.sessions m.pins := by
  refine System.run_invariant (I := fun r => ∀ m, r = .ok m → Counted m.sessions m.pins) ?_ ?_ h
  · rintro (f | m) e - haccurate m' hnext
    · cases hnext
    · exact (haccurate m m' rfl hnext).1
  · rintro m ⟨⟩
    simp [Counted]

/-- An on-demand output that sessions are assigned to by its name. -/
def outputs (name index : String) : Event :=
  .config { nodes := [{ type := "out".toList, name := some name.toList, bank := some "B".toList,
                        index := some index.toList }]
            policy := fun _ => some (some name.toList) }

/-- The declaration moves while a session uses it. -/
def moved : List Event := [outputs "a" "1", .request .pinControl "label".toList, outputs "a" "2"]

/-- The declaration gets another name while a session uses it, and the session closes. -/
def renamed : List Event :=
  [outputs "a" "1", .request .pinControl "label".toList, outputs "b" "1", .close 0]

/-- The counts after a run. -/
def counts (es : List Event) : List UInt32 :=
  match (system plainFormats).run start es with
  | .ok m => m.pins.map (·.refCount)
  | .error _ => []

/-- A moved declaration counts its session twice, and the count of a renamed one falls below zero. -/
theorem miscounted : ¬ (∀ es, (system plainFormats).Along (Accurate plainFormats) start es) ∧
    counts moved = [2] ∧ counts renamed = [4294967295] := by
  refine ⟨fun h => ?_, by rfl, by rfl⟩
  have hfalse : (match (system plainFormats).run start moved with
      | .ok m => decide (∀ pin ∈ m.pins, pin.id.isSome →
          pin.refCount = .ofNat (m.sessions.countP (·.on pin)))
      | .error _ => true) = false := by rfl
  have hcounted := counted_run (h moved)
  cases hr : (system plainFormats).run start moved with
  | error f => simp [hr] at hfalse
  | ok m =>
    rw [hr] at hfalse
    exact of_decide_eq_false hfalse (hcounted m hr)

end Main

end Allwinner.Pio
