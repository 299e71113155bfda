import Allwinner.Modem.Coherence
import Allwinner.Modem.PassLaws

/-!
# Submissions of a run

Which operation a submission comes from, and what holds of every submission in
the log of a run. A ring command is the user's text: what is assumed of the texts
holds of the ring operation.
-/

namespace Allwinner.Modem.Driver

open Library (System)

variable {scan : Scanner} {maxLineLen : Nat}
variable {d : Driver maxLineLen} {config : Config} {responses : List Text}

-- ---------------------------------------------------------------------------
-- Operations of the driver
-- ---------------------------------------------------------------------------

/-- An operation found after a call of `apply` is one the pass left. -/
theorem apply_ops (h : (d.apply scan config responses).1.control.ops k = some op) :
    ∃ state, (d.control.pass (d.received scan responses) config).ops k = some ⟨op.request, state⟩ := by
  rcases apply_cases scan d config responses with ⟨-, -, hc, -⟩ | ⟨j, r, -, -, hc, -, hop, -⟩
  · rw [hc] at h
    exact ⟨op.state, h⟩
  · rw [hc] at h
    by_cases hk : k = j
    · subst hk
      simp only [Function.update_self, Option.some.injEq] at h
      subst h
      exact ⟨.pending, hop⟩
    · simp only [ne_eq, hk, not_false_eq_true, Function.update_of_ne] at h
      exact ⟨op.state, h⟩

theorem submission_ops (h : (d.apply scan config responses).2 = some s) :
    (d.control.pass (d.received scan responses) config).ops s.kind = some { request := s.request } := by
  rcases apply_cases scan d config responses with ⟨hs, -⟩ | ⟨j, r, hs, -, -, -, hop, -⟩
  · rw [hs] at h
    cases h
  · rw [hs, Option.some.injEq] at h
    subst h
    exact hop

theorem cancelCommand_ops (h : d.cancelCommand.control.ops k = some op) :
    d.control.ops k = some op := by
  unfold cancelCommand at h
  cases hp : d.status.pendingCommand with
  | none => simpa [hp] using h
  | some cmd =>
    rw [hp] at h
    change (if d.control.submitted k then none else d.control.ops k) = some op at h
    split at h
    · cases h
    · exact h

-- ---------------------------------------------------------------------------
-- Submissions in the log
-- ---------------------------------------------------------------------------

/-- A submission of a step is the one of its `apply`. -/
theorem submitted_obs (h : .submitted config st s ∈ (system scan maxLineLen).obs d e) :
    ∃ responses, e = .apply config responses ∧ st = d.received scan responses ∧
      (d.apply scan config responses).2 = some s := by
  have hline : ∀ ls (s₀ : Status), .submitted config st s ∉ lineObs scan s₀ ls := by
    intro ls
    induction ls with
    | nil => intro s₀; exact List.not_mem_nil
    | cons l ls ih => intro s₀; simpa [lineObs] using ih _
  cases e with
  | apply config' responses =>
    rw [obs_apply] at h
    have h : ∃ s', (d.apply scan config' responses).2 = some s' ∧
        config' = config ∧ d.received scan responses = st ∧ s' = s := by
      simpa [hline] using h
    obtain ⟨s', hs, rfl, rfl, rfl⟩ := h
    exact ⟨responses, rfl, rfl, hs⟩
  | invalidateCallList => cases h
  | cancelCommand =>
    obtain ⟨c, -, h⟩ := List.mem_map.mp h
    cases h

/-- What every `apply` of a run says of its submission holds of all submissions
in the log. -/
theorem submitted_forall {C : Driver maxLineLen → Event → Prop} {I : Driver maxLineLen → Prop}
    {Q : Config → Status → Control.Submission → Prop}
    (hnext : ∀ d e, I d → C d e → I ((system scan maxLineLen).next d e))
    (hQ : ∀ d config responses s, I d → C d (.apply config responses) →
      (d.apply scan config responses).2 = some s → Q config (d.received scan responses) s)
    (hinit : I d) (hrun : (system scan maxLineLen).Along C d es) :
    ∀ config st s, .submitted config st s ∈ (system scan maxLineLen).log d es → Q config st s := by
  have hall : ∀ o ∈ (system scan maxLineLen).log d es, ∀ config st s,
      o = .submitted config st s → Q config st s := by
    refine System.log_forall hnext ?_ hinit hrun
    rintro d e hd he o ho config st s rfl
    obtain ⟨responses, rfl, rfl, hs⟩ := submitted_obs ho
    exact hQ d config responses s hd he hs
  exact fun config st s ho => hall _ ho config st s rfl

-- ---------------------------------------------------------------------------
-- Ring commands
-- ---------------------------------------------------------------------------

/-- The ring command of the configuration satisfies `P`. -/
def RingText (P : Command → Prop) : Event → Prop
  | .apply config _ => ∀ t ∈ config.ring, P (Command.ofText t)
  | .invalidateCallList => True
  | .cancelCommand => True

instance [DecidablePred P] : DecidablePred (RingText P)
  | .apply config _ => inferInstanceAs (Decidable (∀ t ∈ config.ring, P (Command.ofText t)))
  | .invalidateCallList => isTrue trivial
  | .cancelCommand => isTrue trivial

/-- The command of the ring operation satisfies `P`. -/
def RingHolds (P : Command → Prop) (d : Driver maxLineLen) : Prop :=
  ∀ op, d.control.ops .ring = some op → P op.request.command

theorem RingHolds.pass {P : Command → Prop} (h : d.RingHolds P)
    (hring : ∀ t ∈ config.ring, P (Command.ofText t))
    (hop : (d.control.pass (d.received scan responses) config).ops .ring = some op) :
    P op.request.command := by
  rcases Control.pass_ring_cases hop with hop | ⟨t, ht, rfl⟩
  · exact h op hop
  · exact hring t ht

theorem RingHolds.next {P : Command → Prop} (h : d.RingHolds P) (e : Event) (he : RingText P e) :
    ((system scan maxLineLen).next d e).RingHolds P := by
  intro op hop
  cases e with
  | apply config responses =>
    obtain ⟨state, hpass⟩ := apply_ops hop
    have := h.pass he hpass
    exact this
  | invalidateCallList => exact h op hop
  | cancelCommand => exact h op (cancelCommand_ops hop)

theorem ringHolds_init (P : Command → Prop) (settings : List (Qcfg.Name × Qcfg.Value)) :
    (init maxLineLen settings).RingHolds P := nofun

/-- The invariant of a run whose ring commands satisfy `P` covers every
submission of a ring command. -/
theorem ring_submitted {P : Command → Prop} (h : d.RingHolds P)
    (hring : ∀ t ∈ config.ring, P (Command.ofText t))
    (hs : (d.apply scan config responses).2 = some s) (hk : s.kind = .ring) : P s.command := by
  obtain ⟨kind, r⟩ := s
  subst hk
  exact h.pass hring (submission_ops hs)

end Allwinner.Modem.Driver
