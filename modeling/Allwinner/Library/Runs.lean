import Mathlib.Data.List.Induction

/-!
# Runs of a deterministic system with a log

A `System` answers an event with a new state and the observations it makes on
the way. Everything later said about "every run" is an induction over the list
of events, done once here: an invariant of the states, a property of every
observation, and an invariant that ties the log to the state.

`Along` restricts a run to the steps that meet a condition on the state before
the step and the event.
-/

namespace Allwinner.Library

structure System (σ ε ω : Type*) where
  step : σ → ε → σ × List ω

namespace System

variable {σ ε ω : Type*} (S : System σ ε ω)

def next (s : σ) (e : ε) : σ := (S.step s e).1

def obs (s : σ) (e : ε) : List ω := (S.step s e).2

def run : σ → List ε → σ
  | s, [] => s
  | s, e :: es => run (S.next s e) es

def log : σ → List ε → List ω
  | _, [] => []
  | s, e :: es => S.obs s e ++ log (S.next s e) es

/-- Every step of the run meets `C`. -/
def Along (C : σ → ε → Prop) : σ → List ε → Prop
  | _, [] => True
  | s, e :: es => C s e ∧ Along C (S.next s e) es

instance decidableAlong (C : σ → ε → Prop) [∀ s e, Decidable (C s e)] :
    ∀ s es, Decidable (S.Along C s es)
  | _, [] => isTrue trivial
  | s, e :: es =>
    have := decidableAlong C (S.next s e) es
    inferInstanceAs (Decidable (C s e ∧ S.Along C (S.next s e) es))

variable {S} {C : σ → ε → Prop} {s : σ} {es fs : List ε}

@[simp] theorem run_nil : S.run s [] = s := rfl
@[simp] theorem run_cons : S.run s (e :: es) = S.run (S.next s e) es := rfl
@[simp] theorem log_nil : S.log s [] = [] := rfl
@[simp] theorem log_cons : S.log s (e :: es) = S.obs s e ++ S.log (S.next s e) es := rfl
@[simp] theorem along_nil : S.Along C s [] := trivial
@[simp] theorem along_cons : S.Along C s (e :: es) ↔ C s e ∧ S.Along C (S.next s e) es := Iff.rfl

theorem run_append : S.run s (es ++ fs) = S.run (S.run s es) fs := by
  induction es generalizing s with
  | nil => rfl
  | cons e es ih => simp [ih]

theorem log_append : S.log s (es ++ fs) = S.log s es ++ S.log (S.run s es) fs := by
  induction es generalizing s with
  | nil => rfl
  | cons e es ih => simp [ih]

theorem Along.mono {D : σ → ε → Prop} (hCD : ∀ s e, C s e → D s e) (h : S.Along C s es) :
    S.Along D s es := by
  induction es generalizing s with
  | nil => trivial
  | cons e es ih => exact ⟨hCD _ _ h.1, ih h.2⟩

theorem Along.and_forall {D : ε → Prop} (h : S.Along C s es) (hD : ∀ e ∈ es, D e) :
    S.Along (fun s e => C s e ∧ D e) s es := by
  induction es generalizing s with
  | nil => trivial
  | cons e es ih =>
    exact ⟨⟨h.1, hD e (by simp)⟩, ih h.2 fun e' he => hD e' (by simp [he])⟩

theorem along_of_forall (h : ∀ s e, C s e) : S.Along C s es := by
  induction es generalizing s with
  | nil => trivial
  | cons e es ih => exact ⟨h _ _, ih⟩

/-- Two conditions that agree on the states of an invariant restrict runs alike. -/
theorem along_congr {I : σ → Prop} {D : σ → ε → Prop} (hCD : ∀ s e, I s → (C s e ↔ D s e))
    (hnext : ∀ s e, I s → C s e → I (S.next s e)) (hinit : I s) :
    S.Along C s es ↔ S.Along D s es := by
  induction es generalizing s with
  | nil => rfl
  | cons e es ih =>
    rw [along_cons, along_cons, ← hCD s e hinit]
    exact and_congr_right fun hC => ih (hnext s e hinit hC)

/-- An invariant that each step meeting `C` keeps holds in the state a run reaches. -/
theorem run_invariant {I : σ → Prop} (hstep : ∀ s e, I s → C s e → I (S.next s e))
    (hinit : I s) (hrun : S.Along C s es) : I (S.run s es) := by
  induction es generalizing s with
  | nil => exact hinit
  | cons e es ih => exact ih (hstep _ _ hinit hrun.1) hrun.2

/-- The steps of such a run are all taken from states of the invariant. -/
theorem along_and_of_invariant {I : σ → Prop} (hstep : ∀ s e, I s → C s e → I (S.next s e))
    (hinit : I s) (hrun : S.Along C s es) : S.Along (fun s e => I s ∧ C s e) s es := by
  induction es generalizing s with
  | nil => trivial
  | cons e es ih => exact ⟨⟨hinit, hrun.1⟩, ih (hstep _ _ hinit hrun.1) hrun.2⟩

/-- While a state is not as `P` says, each step lowers the rank: some prefix leads to one that is. -/
theorem exists_prefix_of_rank {P : σ → Prop} {D : ε → Prop} (rank : σ → Nat)
    (hstep : ∀ s e, D e → ¬ P s → P (S.next s e) ∨ rank (S.next s e) < rank s)
    (hD : ∀ e ∈ es, D e) (hlen : rank s < es.length) : ∃ pre, pre <+: es ∧ P (S.run s pre) := by
  induction es generalizing s with
  | nil => exact absurd hlen (Nat.not_lt_zero _)
  | cons e es ih =>
    by_cases hs : P s
    · exact ⟨[], List.nil_prefix, hs⟩
    · rcases hstep s e (hD e (by simp)) hs with hnext | hlt
      · exact ⟨[e], ⟨es, rfl⟩, hnext⟩
      · have hshort : rank (S.next s e) < es.length := by
          simp only [List.length_cons] at hlen
          omega
        obtain ⟨pre, ⟨post, rfl⟩, hpre⟩ := ih (fun e he => hD e (by simp [he])) hshort
        exact ⟨e :: pre, ⟨post, rfl⟩, hpre⟩

/-- Where a step keeps `P` exactly if it meets `C`, a run keeps `P` throughout
exactly if all its steps meet `C`. -/
theorem throughout_iff_along {I P : σ → Prop}
    (hnext : ∀ s e, I s → P s → C s e → I (S.next s e))
    (hstep : ∀ s e, I s → P s → (P (S.next s e) ↔ C s e)) (hinit : I s) (hP : P s) :
    (∀ pre, pre <+: es → P (S.run s pre)) ↔ S.Along C s es := by
  induction es generalizing s with
  | nil => simpa using hP
  | cons e es ih =>
    rw [along_cons]
    constructor
    · intro h
      have hPe : P (S.next s e) := h [e] ⟨es, rfl⟩
      have hC : C s e := (hstep s e hinit hP).mp hPe
      refine ⟨hC, (ih (hnext s e hinit hP hC) hPe).mp fun pre hpre => ?_⟩
      exact h (e :: pre) (List.cons_prefix_cons.mpr ⟨rfl, hpre⟩)
    · rintro ⟨hC, hes⟩ pre hpre
      have hPe : P (S.next s e) := (hstep s e hinit hP).mpr hC
      cases pre with
      | nil => exact hP
      | cons e' pre =>
        obtain ⟨rfl, htail⟩ := List.cons_prefix_cons.mp hpre
        exact (ih (hnext s e' hinit hP hC) hPe).mpr hes pre htail

/-- What every step from an invariant state observes, every run observes. -/
theorem log_forall {I : σ → Prop} {P : ω → Prop}
    (hstep : ∀ s e, I s → C s e → I (S.next s e))
    (hobs : ∀ s e, I s → C s e → ∀ o ∈ S.obs s e, P o)
    (hinit : I s) (hrun : S.Along C s es) : ∀ o ∈ S.log s es, P o := by
  induction es generalizing s with
  | nil => simp
  | cons e es ih =>
    intro o ho
    rcases List.mem_append.mp ho with ho | ho
    · exact hobs _ _ hinit hrun.1 o ho
    · exact ih (hstep _ _ hinit hrun.1) hrun.2 o ho

/-- Where a step logs what satisfies `P` exactly if it meets `C`, so does a run. -/
theorem log_forall_iff_along {I : σ → Prop} {P : ω → Prop} (hnext : ∀ s e, I s → I (S.next s e))
    (hstep : ∀ s e, I s → ((∀ x ∈ S.obs s e, P x) ↔ C s e)) (hinit : I s) :
    (∀ x ∈ S.log s es, P x) ↔ S.Along C s es := by
  induction es generalizing s with
  | nil => exact iff_of_true (by simp) trivial
  | cons e es ih =>
    rw [log_cons, List.forall_mem_append, along_cons, hstep s e hinit, ih (hnext s e hinit)]

/-- A relation between the log so far and the state, kept by each step, holds
of a whole run. -/
theorem log_invariant {I : List ω → σ → Prop}
    (hstep : ∀ h s e, I h s → C s e → I (h ++ S.obs s e) (S.next s e))
    (hinit : I h s) (hrun : S.Along C s es) : I (h ++ S.log s es) (S.run s es) := by
  induction es generalizing s h with
  | nil => simpa using hinit
  | cons e es ih => simpa using ih (hstep _ _ _ hinit hrun.1) hrun.2

end System

-- ---------------------------------------------------------------------------
-- Entries of a log that hold others off
-- ---------------------------------------------------------------------------

section History

variable {ω : Type*} {a : List ω → ω → Prop} {b r : ω → Prop} {h o : List ω} {x : ω}

/-- Between an entry satisfying `a`, given the log in front of it, and a later
one satisfying `b` there is one satisfying `r`. -/
def Shielded (a : List ω → ω → Prop) (b r : ω → Prop) (h : List ω) : Prop :=
  ∀ pre x mid y post, h = pre ++ x :: mid ++ y :: post → a pre x → b y → ∃ z ∈ mid, r z

/-- Some entry satisfies `a`, given the log in front of it, and none after it
satisfies `r`. -/
def OpenSince (a : List ω → ω → Prop) (r : ω → Prop) (h : List ω) : Prop :=
  ∃ pre x mid, h = pre ++ x :: mid ∧ a pre x ∧ ∀ z ∈ mid, ¬ r z

theorem shielded_nil : Shielded a b r [] := by
  intro pre x mid y post h
  simp at h

theorem not_openSince_nil : ¬ OpenSince a r [] := by
  rintro ⟨pre, x, mid, h, -⟩
  simp at h

theorem openSince_snoc : OpenSince a r (h ++ [x]) ↔ a h x ∨ (OpenSince a r h ∧ ¬ r x) := by
  constructor
  · rintro ⟨pre, y, mid, he, hy, hmid⟩
    rcases List.eq_nil_or_concat mid with rfl | ⟨mid', z, rfl⟩
    · obtain ⟨rfl, hxy⟩ := List.append_inj' he rfl
      obtain rfl := List.singleton_inj.mp hxy
      exact .inl hy
    · have he : h ++ [x] = (pre ++ y :: mid') ++ [z] := by simpa using he
      obtain ⟨rfl, hx⟩ := List.append_inj' he rfl
      obtain rfl : x = z := by simpa using hx
      exact .inr ⟨⟨pre, y, mid', rfl, hy, fun z hz => hmid z (by simp [hz])⟩, hmid x (by simp)⟩
  · rintro (hx | ⟨⟨pre, y, mid, rfl, hy, hmid⟩, hx⟩)
    · exact ⟨h, x, [], rfl, hx, by simp⟩
    · refine ⟨pre, y, mid ++ [x], by simp, hy, ?_⟩
      intro z hz
      rcases List.mem_append.mp hz with hz | hz
      · exact hmid z hz
      · obtain rfl : z = x := by simpa using hz
        exact hx

theorem Shielded.snoc (hs : Shielded a b r h) (hx : b x → ¬ OpenSince a r h) :
    Shielded a b r (h ++ [x]) := by
  intro pre y mid z post he hy hz
  rcases List.eq_nil_or_concat post with rfl | ⟨post', w, rfl⟩
  · have he : h ++ [x] = (pre ++ y :: mid) ++ [z] := by simpa using he
    obtain ⟨rfl, hxz⟩ := List.append_inj' he rfl
    obtain rfl : x = z := by simpa using hxz
    by_contra hno
    exact hx hz ⟨pre, y, mid, rfl, hy, fun w hw hr => hno ⟨w, hw, hr⟩⟩
  · have he : h ++ [x] = (pre ++ y :: mid ++ z :: post') ++ [w] := by simpa using he
    obtain ⟨rfl, -⟩ := List.append_inj' he rfl
    exact hs pre y mid z post' rfl hy hz

theorem Shielded.mono {b' r' : ω → Prop} (hs : Shielded a b r h) (hb : ∀ x, b' x → b x)
    (hr : ∀ x, r x → r' x) : Shielded a b' r' h := by
  intro pre x mid y post he hx hy
  obtain ⟨z, hz, hrz⟩ := hs pre x mid y post he hx (hb y hy)
  exact ⟨z, hz, hr z hrz⟩

/-- Every entry satisfies `Q`, given the log in front of it. -/
def EachGiven (Q : List ω → ω → Prop) (h : List ω) : Prop := ∀ pre x post, h = pre ++ x :: post → Q pre x

variable {Q : List ω → ω → Prop}

theorem eachGiven_nil : EachGiven Q [] := by
  intro pre x post h
  simp at h

theorem eachGiven_cons : EachGiven Q (x :: h) ↔ Q [] x ∧ EachGiven (fun pre => Q (x :: pre)) h := by
  constructor
  · intro hQ
    exact ⟨hQ [] x h rfl, fun pre y post he => hQ (x :: pre) y post (by simp [he])⟩
  · rintro ⟨hx, hh⟩ pre y post he
    cases pre with
    | nil =>
      obtain ⟨rfl, -⟩ := List.cons.inj he
      exact hx
    | cons z pre =>
      obtain ⟨rfl, htail⟩ := List.cons.inj he
      exact hh pre y post htail

theorem eachGiven_append :
    EachGiven Q (h ++ o) ↔ EachGiven Q h ∧ EachGiven (fun pre => Q (h ++ pre)) o := by
  induction h generalizing Q with
  | nil => simp [eachGiven_nil]
  | cons x h ih => simp only [List.cons_append, eachGiven_cons, ih, and_assoc]

/-- Where a step on an event of `D` logs what satisfies `Q` exactly if it meets `C`, a run on
such events logs nothing else exactly if all its steps meet `C`. -/
theorem System.eachGiven_iff_along_of {σ ε : Type*} {S : System σ ε ω} {C : σ → ε → Prop}
    {D : ε → Prop} {I : List ω → σ → Prop} {s : σ} {es : List ε}
    (hnext : ∀ h s e, I h s → D e → C s e → I (h ++ S.obs s e) (S.next s e))
    (hstep : ∀ h s e, I h s → D e → (EachGiven (fun pre => Q (h ++ pre)) (S.obs s e) ↔ C s e))
    (hinit : I h s) (hes : ∀ e ∈ es, D e) :
    EachGiven (fun pre => Q (h ++ pre)) (S.log s es) ↔ S.Along C s es := by
  induction es generalizing s h with
  | nil => exact iff_of_true eachGiven_nil trivial
  | cons e es ih =>
    have he : D e := hes e (by simp)
    rw [System.log_cons, eachGiven_append, System.along_cons, hstep h s e hinit he]
    refine and_congr_right fun hC => ?_
    rw [← ih (hnext h s e hinit he hC) fun e' he' => hes e' (by simp [he'])]
    simp only [List.append_assoc]

/-- Where a step logs what satisfies `Q` exactly if it meets `C`, a run logs nothing
else exactly if all its steps meet `C`. -/
theorem System.eachGiven_iff_along {σ ε : Type*} {S : System σ ε ω} {C : σ → ε → Prop}
    {I : List ω → σ → Prop} {s : σ} {es : List ε}
    (hnext : ∀ h s e, I h s → C s e → I (h ++ S.obs s e) (S.next s e))
    (hstep : ∀ h s e, I h s → (EachGiven (fun pre => Q (h ++ pre)) (S.obs s e) ↔ C s e)) (hinit : I h s) :
    EachGiven (fun pre => Q (h ++ pre)) (S.log s es) ↔ S.Along C s es :=
  eachGiven_iff_along_of (D := fun _ => True) (fun h s e hI _ => hnext h s e hI)
    (fun h s e hI _ => hstep h s e hI) hinit fun _ _ => trivial

/-- A relation of each entry to those in front of it. -/
theorem pairwise_iff_eachGiven {R : ω → ω → Prop} :
    h.Pairwise R ↔ EachGiven (fun pre y => ∀ x ∈ pre, R x y) h := by
  induction h using List.reverseRecOn with
  | nil => exact iff_of_true .nil eachGiven_nil
  | append_singleton h y ih =>
    rw [List.pairwise_append, eachGiven_append, eachGiven_cons, ih]
    simp [eachGiven_nil]

theorem eachGiven_singleton : EachGiven Q [x] ↔ Q [] x := by
  rw [eachGiven_cons]
  exact and_iff_left eachGiven_nil

/-- A log is shielded if no entry satisfying `b` comes while it is open. -/
theorem shielded_iff_eachGiven :
    Shielded a b r h ↔ EachGiven (fun pre y => b y → ¬ OpenSince a r pre) h := by
  constructor
  · rintro hs pre y post rfl hy ⟨pre', x, mid, rfl, hx, hmid⟩
    obtain ⟨z, hz, hr⟩ := hs pre' x mid y post (by simp) hx hy
    exact hmid z hz hr
  · rintro hs pre x mid y post rfl hx hy
    by_contra hno
    exact hs (pre ++ x :: mid) y post (by simp) hy
      ⟨pre, x, mid, rfl, hx, fun z hz hr => hno ⟨z, hz, hr⟩⟩

/-- Runs through a log and fails at a `b` that an `a` before holds off. -/
def shieldedBy (a b r : ω → Bool) : Bool → List ω → Bool
  | _, [] => true
  | isOpen, x :: xs => !(isOpen && b x) && shieldedBy a b r (a x || isOpen && !r x) xs

theorem shieldedBy_of_shielded {a b r : ω → Bool} {isOpen : Bool}
    (hs : Shielded (fun _ x => a x = true) (b · = true) (r · = true) h)
    (hopen : isOpen = true → ∀ mid y post, h = mid ++ y :: post → b y = true → ∃ z ∈ mid, r z = true) :
    shieldedBy a b r isOpen h = true := by
  induction h generalizing isOpen with
  | nil => rfl
  | cons x xs ih =>
    have hfirst : (isOpen && b x) = false := by
      by_contra hx
      obtain ⟨ho, hx⟩ : isOpen = true ∧ b x = true := by simpa using hx
      obtain ⟨z, hz, -⟩ := hopen ho [] x xs rfl hx
      cases hz
    have hrest : shieldedBy a b r (a x || isOpen && !r x) xs = true := by
      refine ih (fun pre y mid z post he => hs (x :: pre) y mid z post (by simp [he])) ?_
      intro ho mid y post he hy
      by_cases hx : a x = true
      · exact hs [] x mid y post (by simp [he]) hx hy
      · obtain ⟨ho, hr⟩ : isOpen = true ∧ r x = false := by simpa [hx] using ho
        obtain ⟨z, hz, hrz⟩ := hopen ho (x :: mid) y post (by simp [he]) hy
        rcases List.mem_cons.mp hz with rfl | hz
        · simp [hr] at hrz
        · exact ⟨z, hz, hrz⟩
    simp [shieldedBy, hfirst, hrest]

theorem not_shielded {a b r : ω → Bool} (h : List ω) (hno : shieldedBy a b r false h = false) :
    ¬ Shielded (fun _ x => a x = true) (b · = true) (r · = true) h := by
  intro hs
  have hyes : shieldedBy a b r false h = true :=
    shieldedBy_of_shielded hs fun hf => absurd hf Bool.false_ne_true
  exact Bool.false_ne_true (hno.symm.trans hyes)

end History

-- ---------------------------------------------------------------------------
-- Events of a log that something else has to separate
-- ---------------------------------------------------------------------------

section Separation

variable {ω : Type*} {a r : ω → Prop} {h o : List ω} {x : ω}

/-- Between any two entries satisfying `a` there is one satisfying `r`. -/
def Separated (a r : ω → Prop) (h : List ω) : Prop :=
  ∀ pre x mid y post, h = pre ++ x :: mid ++ y :: post → a x → a y → ∃ z ∈ mid, r z

/-- Some entry satisfies `a`, and none after it satisfies `r`. -/
def Open (a r : ω → Prop) (h : List ω) : Prop :=
  ∃ pre x mid, h = pre ++ x :: mid ∧ a x ∧ ∀ z ∈ mid, ¬ r z

theorem separated_nil : Separated a r [] := shielded_nil

theorem not_open_nil : ¬ Open a r [] := not_openSince_nil

theorem open_snoc : Open a r (h ++ [x]) ↔ a x ∨ (Open a r h ∧ ¬ r x) :=
  openSince_snoc (a := fun _ => a)

theorem Separated.snoc (hs : Separated a r h) (hx : a x → ¬ Open a r h) :
    Separated a r (h ++ [x]) :=
  Shielded.snoc (a := fun _ => a) hs hx

/-- Entries that are no `a` separate nothing new, and close the log if one is an `r`. -/
theorem Separated.append (hs : Separated a r h) (ho : ∀ x ∈ o, ¬ a x) : Separated a r (h ++ o) := by
  induction o using List.reverseRecOn with
  | nil => simpa using hs
  | append_singleton o x ih =>
    rw [← List.append_assoc]
    exact (ih fun y hy => ho y (by simp [hy])).snoc fun hx => absurd hx (ho x (by simp))

theorem open_append (ho : ∀ x ∈ o, ¬ a x) :
    Open a r (h ++ o) ↔ Open a r h ∧ ∀ x ∈ o, ¬ r x := by
  induction o using List.reverseRecOn with
  | nil => simp
  | append_singleton o x ih =>
    rw [← List.append_assoc, open_snoc, ih fun y hy => ho y (by simp [hy])]
    have hx : ¬ a x := ho x (by simp)
    constructor
    · rintro (h | ⟨⟨hopen, hr⟩, hrx⟩)
      · exact absurd h hx
      · refine ⟨hopen, fun y hy => ?_⟩
        rcases List.mem_append.mp hy with hy | hy
        · exact hr y hy
        · obtain rfl : y = x := by simpa using hy
          exact hrx
    · rintro ⟨hopen, hr⟩
      exact .inr ⟨⟨hopen, fun y hy => hr y (by simp [hy])⟩, hr x (by simp)⟩

/-- Entries that do not close the log leave it open, or open it. -/
theorem open_append_of_not_closing (ho : ∀ x ∈ o, ¬ r x) :
    Open a r (h ++ o) ↔ Open a r h ∨ ∃ x ∈ o, a x := by
  induction o using List.reverseRecOn with
  | nil => simp
  | append_singleton o x ih =>
    rw [← List.append_assoc, open_snoc, ih fun y hy => ho y (by simp [hy])]
    have hx : ¬ r x := ho x (by simp)
    constructor
    · rintro (ha | ⟨h | ⟨y, hy, ha⟩, -⟩)
      · exact .inr ⟨x, by simp, ha⟩
      · exact .inl h
      · exact .inr ⟨y, by simp [hy], ha⟩
    · rintro (h | ⟨y, hy, ha⟩)
      · exact .inr ⟨.inl h, hx⟩
      · rcases List.mem_append.mp hy with hy | hy
        · exact .inr ⟨.inr ⟨y, hy, ha⟩, hx⟩
        · obtain rfl : y = x := by simpa using hy
          exact .inl ha

/-- Runs through a log and keeps whether it is open. -/
def openBy (a r : ω → Bool) (h : List ω) : Bool := h.foldl (fun isOpen x => a x || isOpen && !r x) false

theorem openBy_iff {a r : ω → Bool} : openBy a r h = true ↔ Open (a · = true) (r · = true) h := by
  induction h using List.reverseRecOn with
  | nil => exact iff_of_false Bool.false_ne_true not_open_nil
  | append_singleton h x ih =>
    rw [open_snoc, ← ih]
    simp [openBy]

instance {a r : ω → Bool} : Decidable (Open (a · = true) (r · = true) h) :=
  decidable_of_iff _ openBy_iff

/-- In front of every entry satisfying `r` there is one satisfying `a`, and no `r` between them. -/
def Earned (a r : ω → Prop) (h : List ω) : Prop := EachGiven (fun pre x => r x → Open a r pre) h

theorem earned_nil : Earned a r [] := eachGiven_nil

theorem earned_snoc : Earned a r (h ++ [x]) ↔ Earned a r h ∧ (r x → Open a r h) := by
  unfold Earned
  rw [eachGiven_append, eachGiven_singleton, List.append_nil]

/-- An earned entry has an entry of its own that earns it: there are no more of them, and
fewer while the log is open. -/
theorem Earned.countP_le {a r : ω → Bool} (he : Earned (a · = true) (r · = true) h) :
    h.countP r ≤ h.countP a ∧ (Open (a · = true) (r · = true) h → h.countP r < h.countP a) := by
  induction h using List.reverseRecOn with
  | nil => exact ⟨Nat.le_refl _, fun ho => absurd ho not_open_nil⟩
  | append_singleton h x ih =>
    obtain ⟨he, hx⟩ := earned_snoc.mp he
    obtain ⟨hle, hlt⟩ := ih he
    simp only [open_snoc, List.countP_append, List.countP_singleton]
    cases hr : r x with
    | false =>
      refine ⟨by simp; omega, ?_⟩
      rintro (ha | ⟨ho, -⟩)
      · simp [ha]
        omega
      · have := hlt ho
        simp
        omega
    | true =>
      have hless := hlt (hx hr)
      refine ⟨by simp; omega, ?_⟩
      rintro (ha | ⟨-, hno⟩)
      · simpa [ha] using hless
      · exact absurd rfl hno

/-- Runs through a log and fails at an `a` that nothing separates from the one before. -/
def separatedBy (a r : ω → Bool) : Bool → List ω → Bool
  | _, [] => true
  | isOpen, x :: xs => !(isOpen && a x) && separatedBy a r (a x || isOpen && !r x) xs

theorem separatedBy_eq {a r : ω → Bool} {isOpen : Bool} :
    separatedBy a r isOpen h = shieldedBy a a r isOpen h := by
  induction h generalizing isOpen with
  | nil => rfl
  | cons x xs ih => simp only [separatedBy, shieldedBy, ih]

theorem not_separated {a r : ω → Bool} (h : List ω) (hno : separatedBy a r false h = false) :
    ¬ Separated (a · = true) (r · = true) h :=
  not_shielded h (separatedBy_eq ▸ hno)

end Separation

end Allwinner.Library
