import Allwinner.Library.Structured

/-!
# Programs of several words

On top of the words there are already, more are defined, each by a structured program over the
words before it. A word means a call of its body.
-/

namespace Allwinner.Library.Structured

variable {W S : Type*} {M : Meaning W S} {C : Counts M} {call : (S → S → Prop) → S → S → Prop}

/-- The same tests and loops around other words. -/
def Meaning.withRun (M : Meaning W S) (run : W → S → S → Prop) : Meaning W S := { M with run }

def Counts.withRun (C : Counts M) (run : W → S → S → Prop) : Counts (M.withRun run) :=
  ⟨C.count, C.inside, C.enter, C.more, C.last⟩

/-- A program does what it did if its words do. -/
theorem Means.mono {run run' : W → S → S → Prop} (hrun : ∀ w s t, run w s t → run' w s t)
    (h : Means (C.withRun run) b s t) : Means (C.withRun run') b s t := by
  induction h with
  | done => exact .done
  | word h _ ih => exact .word (hrun _ _ _ h) ih
  | ifTrue h _ _ ihb ihk => exact .ifTrue h ihb ihk
  | ifFalse h _ ih => exact .ifFalse h ih
  | untilFalse _ h _ ihb ihr => exact .untilFalse ihb h ihr
  | untilTrue _ h _ ihb ihk => exact .untilTrue ihb h ihk
  | forNext h r hfirst _ _ ihb ihk => exact .forNext h r hfirst ihb ihk
  | forAft h r hfirst _ _ ihb ihk => exact .forAft h r hfirst ihb ihk

/-- What words do, with those of `ps` defined on top of the others, the newest one first. `call` is
how a machine calls a body of the given meaning. -/
def runs (C : Counts M) (call : (S → S → Prop) → S → S → Prop) : List (W × Prog W) → W → S → S → Prop
  | [] => M.run
  | (x, b) :: ps => fun w s t => runs C call ps w s t ∨ w = x ∧ call (Means (C.withRun (runs C call ps)) b) s t

/-- The meaning of a program over defined words. -/
abbrev Calls (C : Counts M) (call : (S → S → Prop) → S → S → Prop) (ps : List (W × Prog W)) :
    Prog W → S → S → Prop := Means (C.withRun (runs C call ps))

/-- What the words below do anyway. -/
theorem runs_base {ps : List (W × Prog W)} (h : M.run w s t) : runs C call ps w s t := by
  induction ps with
  | nil => exact h
  | cons p ps ih => exact .inl ih

/-- Older words keep their meaning. -/
theorem runs_append {ps : List (W × Prog W)} (qs : List (W × Prog W)) (h : runs C call ps w s t) :
    runs C call (qs ++ ps) w s t := by
  induction qs with
  | nil => exact h
  | cons q qs ih => exact .inl ih

/-- A word is a call of its body, which knows the words before it. -/
theorem runs_call {ps qs : List (W × Prog W)} (h : call (Calls C call ps b) s t) :
    runs C call (qs ++ (x, b) :: ps) x s t := runs_append qs (.inr ⟨rfl, h⟩)

/-- What words do is the least that has room for the calls of their bodies. -/
theorem runs_le {ps : List (W × Prog W)} {run : W → S → S → Prop}
    (hcall : ∀ R R' : S → S → Prop, (∀ s t, R s t → R' s t) → ∀ s t, call R s t → call R' s t)
    (hbase : ∀ w s t, M.run w s t → run w s t)
    (hbody : ∀ p ∈ ps, ∀ s t, call (Means (C.withRun run) p.2) s t → run p.1 s t) :
    ∀ w s t, runs C call ps w s t → run w s t := by
  induction ps with
  | nil => exact hbase
  | cons p ps ih =>
    have hps := ih fun q hq => hbody q (List.mem_cons_of_mem _ hq)
    rintro w s t (h | ⟨rfl, h⟩)
    · exact hps w s t h
    · exact hbody p List.mem_cons_self s t (hcall _ _ (fun _ _ => .mono hps) s t h)

end Allwinner.Library.Structured
