import Mathlib.Logic.Basic

/-!
# Weakest preconditions of computations that fail with a state

A computation of `EStateM` keeps its state when it throws, so a failure has a
postcondition of its own. The rules follow the shape of the program, from the
last statement to the first.
-/

namespace Allwinner.Library

variable {ε σ α β : Type} {Q Q' : α → σ → Prop} {E E' : ε → σ → Prop} {s : σ}

/-- From `s` the computation ends in `Q`, or fails in `E`. -/
def wp (m : EStateM ε σ α) (Q : α → σ → Prop) (E : ε → σ → Prop) (s : σ) : Prop :=
  match m s with
  | .ok a s' => Q a s'
  | .error e s' => E e s'

section Rules

variable {m : EStateM ε σ α} {f : α → EStateM ε σ β} {R : β → σ → Prop}

@[simp] theorem wp_pure {a : α} : wp (pure a) Q E s ↔ Q a s := Iff.rfl

@[simp] theorem wp_throw {e : ε} : wp (throw e) Q E s ↔ E e s := Iff.rfl

@[simp] theorem wp_bind : wp (m >>= f) R E s ↔ wp m (fun a t => wp (f a) R E t) E s := by
  change wp (EStateM.bind m f) R E s ↔ _
  unfold wp EStateM.bind
  cases m s <;> rfl

@[simp] theorem wp_get {R : σ → σ → Prop} : wp (get : EStateM ε σ σ) R E s ↔ R s s := Iff.rfl

@[simp] theorem wp_set {R : PUnit → σ → Prop} {t : σ} :
    wp (set t : EStateM ε σ PUnit) R E s ↔ R ⟨⟩ t := Iff.rfl

@[simp] theorem wp_modify {R : PUnit → σ → Prop} {g : σ → σ} :
    wp (modify g : EStateM ε σ PUnit) R E s ↔ R ⟨⟩ (g s) := Iff.rfl

@[simp] theorem wp_ite {p : Prop} [Decidable p] {m' : EStateM ε σ α} :
    wp (if p then m else m') Q E s ↔ if p then wp m Q E s else wp m' Q E s := by
  split <;> rfl

theorem wp_mono (hQ : ∀ a t, Q a t → Q' a t) (hE : ∀ e t, E e t → E' e t) (h : wp m Q E s) :
    wp m Q' E' s := by
  unfold wp at *
  split at h <;> rename_i heq
  · exact hQ _ _ h
  · exact hE _ _ h

end Rules

end Allwinner.Library
