import Allwinner.Library.Structured
import Mathlib.Tactic.Choose

/-!
# Runs without an end

A simulation that takes each step to one or more takes a run without an end to another one. It may
stand still as long as a rank falls.
-/

namespace Allwinner.Library

open Relation (ReflTransGen TransGen)

variable {α β : Type*} {R : α → α → Prop} {T : β → β → Prop} {a b : α}

/-- There is a run from `a` that goes on forever. -/
def Diverges (R : α → α → Prop) (a : α) : Prop := ∃ r : Nat → α, r 0 = a ∧ ∀ n, R (r n) (r (n + 1))

namespace Diverges

theorem next (h : Diverges R a) : ∃ b, R a b ∧ Diverges R b := by
  obtain ⟨r, rfl, hr⟩ := h
  exact ⟨r 1, hr 0, fun n => r (n + 1), rfl, fun n => hr (n + 1)⟩

/-- It is enough that one can always go on. -/
theorem of_next {I : α → Prop} (hnext : ∀ a, I a → ∃ b, R a b ∧ I b) (ha : I a) : Diverges R a := by
  choose f hf using fun x : { a // I a } => hnext x.1 x.2
  let r : Nat → { a // I a } := fun n => n.rec ⟨a, ha⟩ fun _ x => ⟨f x, (hf x).2⟩
  exact ⟨fun n => (r n).1, rfl, fun n => (hf (r n)).1⟩

/-- By any number of steps, but at least one. -/
theorem of_progress {I : α → Prop} (hprogress : ∀ a, I a → ∃ b, TransGen R a b ∧ I b) (ha : I a) :
    Diverges R a := by
  refine of_next (I := fun a => ∃ b, ReflTransGen R a b ∧ I b) ?_ ⟨a, .refl, ha⟩
  rintro a ⟨b, hab, hb⟩
  obtain ⟨c, hbc, hc⟩ := hprogress b hb
  obtain ⟨d, had, hdc⟩ := TransGen.head'_iff.mp (TransGen.trans_right hab hbc)
  exact ⟨d, had, c, hdc, hc⟩

theorem of_reaches (hab : ReflTransGen R a b) (hb : Diverges R b) : Diverges R a := by
  refine of_progress (I := fun a => ∃ b, ReflTransGen R a b ∧ Diverges R b) ?_ ⟨b, hab, hb⟩
  rintro a ⟨b, hab, hb⟩
  obtain ⟨c, hbc, hc⟩ := hb.next
  exact ⟨c, .tail' hab hbc, c, .refl, hc⟩

/-- Each step is followed, or the rank falls. -/
theorem simulated {sim : α → β → Prop} {b : β} (rank : α → Nat)
    (hsim : ∀ a a' b, R a a' → sim a b →
      (∃ b', TransGen T b b' ∧ sim a' b') ∨ (sim a' b ∧ rank a' < rank a))
    (ha : Diverges R a) (hb : sim a b) : Diverges T b := by
  refine of_progress (I := fun b => ∃ a, Diverges R a ∧ sim a b) ?_ ⟨a, ha, hb⟩
  rintro b ⟨a, ha, hb⟩
  induction hn : rank a using Nat.strongRecOn generalizing a with
  | ind n ih =>
    obtain ⟨a', hstep, ha'⟩ := ha.next
    obtain ⟨b', hprogress, hb'⟩ | ⟨hb', hlt⟩ := hsim a a' b hstep hb
    · exact ⟨b', hprogress, a', ha', hb'⟩
    · exact ih _ (hn ▸ hlt) a' ha' hb' rfl

/-- Where there is one way to go, a run without an end never gets stuck. -/
theorem not_stuck (hunique : Relator.RightUnique R) (ha : Diverges R a) (hab : ReflTransGen R a b) :
    ∃ c, R b c := by
  have hb : Diverges R b := by
    induction hab with
    | refl => exact ha
    | tail _ hstep ih =>
      obtain ⟨c, hc, hdiverges⟩ := ih.next
      exact hunique hc hstep ▸ hdiverges
  obtain ⟨c, hc, -⟩ := hb.next
  exact ⟨c, hc⟩

end Diverges

namespace Structured

variable {W S : Type*} {M : Meaning W S} {C : Counts M}

/-- A loop without an exit. -/
theorem again_diverges {I : S → Prop} {b k : Prog W} {K : List (Frame W)}
    (hround : ∀ s, I s → ∃ t, Means C b s t ∧ I t) (hs : I s) : Diverges (Step M) ⟨.againLoop b k, K, s⟩ := by
  refine .of_progress (I := fun x => ∃ s, I s ∧ (x = ⟨.againLoop b k, K, s⟩ ∨ x = ⟨.done, .againEnd b k :: K, s⟩))
    ?_ ⟨s, hs, .inl rfl⟩
  rintro x ⟨s, hs, hx⟩
  obtain ⟨t, hmeans, ht⟩ := hround s hs
  have hbody := hmeans.path (.againEnd b k :: K)
  obtain rfl | rfl := hx
  · exact ⟨_, .head' .againLoop hbody, t, ht, .inr rfl⟩
  · exact ⟨_, .head' .againEnd hbody, t, ht, .inr rfl⟩

end Structured

end Allwinner.Library
