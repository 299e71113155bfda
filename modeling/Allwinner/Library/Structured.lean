import Mathlib.Logic.Relation
import Mathlib.Algebra.BigOperators.Group.List.Basic
import Mathlib.Algebra.GroupWithZero.Nat

/-!
# Structured programs as branches

Conditionals and loops over arbitrary words, and the linear code with branches that stands
for them. `Step` runs a program together with what is left of the control structures around
it, so that a loop without an end has a meaning as well. `Means` is the meaning of a program
that ends. The code follows each step.
-/

namespace Allwinner.Library.Structured

open Relation (ReflTransGen)

variable {W V S : Type*}

/-- A program, with what follows each part of it. -/
inductive Prog (W : Type*) where
  | done
  | word (w : W) (next : Prog W)
  | ifThen (body next : Prog W)
  | untilLoop (body next : Prog W)
  | againLoop (body next : Prog W)
  | forNext (body next : Prog W)
  | forAft (body next : Prog W)
  deriving DecidableEq

/-- Each word by what `f` makes of it. -/
def Prog.traverse (f : W → Option V) : Prog W → Option (Prog V)
  | .done => some .done
  | .word w k => do return .word (← f w) (← k.traverse f)
  | .ifThen b k => do return .ifThen (← b.traverse f) (← k.traverse f)
  | .untilLoop b k => do return .untilLoop (← b.traverse f) (← k.traverse f)
  | .againLoop b k => do return .againLoop (← b.traverse f) (← k.traverse f)
  | .forNext b k => do return .forNext (← b.traverse f) (← k.traverse f)
  | .forAft b k => do return .forAft (← b.traverse f) (← k.traverse f)

/-- Both parts of a control structure can be had. -/
theorem both_eq_some {α β γ : Type _} {f : α → β → γ} {x : Option α} {y : Option β} {z : γ} :
    (do return f (← x) (← y)) = some z ↔ ∃ u v, x = some u ∧ y = some v ∧ f u v = z := by
  cases x <;> cases y <;> simp

/-- What is left of a control structure behind its body. -/
inductive Frame (W : Type*) where
  | ifEnd (next : Prog W)
  | untilEnd (body next : Prog W)
  | againEnd (body next : Prog W)
  | nextEnd (body next : Prog W)

/-- What words do, and the tests of the control structures. -/
structure Meaning (W S : Type*) where
  run : W → S → S → Prop
  flag : S → Bool → S → Prop
  /-- A counting loop begins. -/
  enter : S → S → Prop
  /-- Whether there is one more round. -/
  more : S → Bool → S → Prop

structure Point (W S : Type*) where
  prog : Prog W
  frames : List (Frame W)
  state : S

section Runs

variable (M : Meaning W S)

inductive Step : Point W S → Point W S → Prop
  | word (h : M.run w s t) : Step ⟨.word w k, K, s⟩ ⟨k, K, t⟩
  | ifTrue (h : M.flag s true t) : Step ⟨.ifThen b k, K, s⟩ ⟨b, .ifEnd k :: K, t⟩
  | ifFalse (h : M.flag s false t) : Step ⟨.ifThen b k, K, s⟩ ⟨k, K, t⟩
  | ifEnd : Step ⟨.done, .ifEnd k :: K, s⟩ ⟨k, K, s⟩
  | untilLoop : Step ⟨.untilLoop b k, K, s⟩ ⟨b, .untilEnd b k :: K, s⟩
  | untilFalse (h : M.flag s false t) :
    Step ⟨.done, .untilEnd b k :: K, s⟩ ⟨b, .untilEnd b k :: K, t⟩
  | untilTrue (h : M.flag s true t) : Step ⟨.done, .untilEnd b k :: K, s⟩ ⟨k, K, t⟩
  | againLoop : Step ⟨.againLoop b k, K, s⟩ ⟨b, .againEnd b k :: K, s⟩
  | againEnd : Step ⟨.done, .againEnd b k :: K, s⟩ ⟨b, .againEnd b k :: K, s⟩
  | forNext (h : M.enter s t) : Step ⟨.forNext b k, K, s⟩ ⟨b, .nextEnd b k :: K, t⟩
  | forAft (h : M.enter s t) : Step ⟨.forAft b k, K, s⟩ ⟨.done, .nextEnd b k :: K, t⟩
  | nextMore (h : M.more s true t) :
    Step ⟨.done, .nextEnd b k :: K, s⟩ ⟨b, .nextEnd b k :: K, t⟩
  | nextEnd (h : M.more s false t) : Step ⟨.done, .nextEnd b k :: K, s⟩ ⟨k, K, t⟩

abbrev Path : Point W S → Point W S → Prop := ReflTransGen (Step M)

/-- A meaning whose loops count. Inside of a round the state holds the counter. -/
structure Counts where
  count : S → Nat → S → Prop
  inside : Nat → S → S
  enter : count s n t → M.enter s (inside n t)
  more : count s n t → i < n → M.more (inside (i + 1) u) true (inside i u)
  last : M.more (inside 0 u) false u

variable {M}

/-- The meaning of a program that ends. A body inside of a counting loop leaves the counter as
it found it, and runs once more than the number says, or as often behind `forAft`. -/
inductive Means (C : Counts M) : Prog W → S → S → Prop
  | done : Means C .done s s
  | word (h : M.run w s t) (hnext : Means C k t u) : Means C (.word w k) s u
  | ifTrue (h : M.flag s true t) (hbody : Means C b t u) (hnext : Means C k u v) :
    Means C (.ifThen b k) s v
  | ifFalse (h : M.flag s false t) (hnext : Means C k t u) : Means C (.ifThen b k) s u
  | untilFalse (hbody : Means C b s t) (h : M.flag t false u) (hrest : Means C (.untilLoop b k) u v) :
    Means C (.untilLoop b k) s v
  | untilTrue (hbody : Means C b s t) (h : M.flag t true u) (hnext : Means C k u v) :
    Means C (.untilLoop b k) s v
  | forNext (h : C.count s n t) (r : Nat → S) (hfirst : r 0 = t)
    (hround : ∀ i ≤ n, Means C b (C.inside (n - i) (r i)) (C.inside (n - i) (r (i + 1))))
    (hnext : Means C k (r (n + 1)) u) : Means C (.forNext b k) s u
  | forAft (h : C.count s n t) (r : Nat → S) (hfirst : r 0 = t)
    (hround : ∀ i < n, Means C b (C.inside (n - 1 - i) (r i)) (C.inside (n - 1 - i) (r (i + 1))))
    (hnext : Means C k (r n) u) : Means C (.forAft b k) s u

/-- The rounds of a loop whose counter starts at `n`. -/
theorem rounds_path (C : Counts M) {b k : Prog W} {K : List (Frame W)} {r : Nat → S}
    (hcount : C.count s n t) (hj : j ≤ n)
    (h : ∀ i ≤ j, Path M ⟨b, .nextEnd b k :: K, C.inside (j - i) (r i)⟩
      ⟨.done, .nextEnd b k :: K, C.inside (j - i) (r (i + 1))⟩) :
    Path M ⟨b, .nextEnd b k :: K, C.inside j (r 0)⟩ ⟨k, K, r (j + 1)⟩ := by
  have hrounds : ∀ i ≤ j, Path M ⟨b, .nextEnd b k :: K, C.inside j (r 0)⟩
      ⟨.done, .nextEnd b k :: K, C.inside (j - i) (r (i + 1))⟩ := by
    intro i hi
    induction i with
    | zero => exact h 0 hi
    | succ i ih =>
      have hmore := C.more (i := j - (i + 1)) (u := r (i + 1)) hcount (by omega)
      rw [show j - (i + 1) + 1 = j - i by omega] at hmore
      exact ((ih (by omega)).tail (.nextMore hmore)).trans (h (i + 1) hi)
  have hlast := hrounds j (Nat.le_refl _)
  rw [Nat.sub_self] at hlast
  exact hlast.tail (.nextEnd C.last)

/-- A loop starts with its body. -/
theorem Path.body {b k : Prog W} {K : List (Frame W)}
    (h : Path M ⟨.untilLoop b k, K, s⟩ ⟨.done, K, t⟩) :
    Path M ⟨b, .untilEnd b k :: K, s⟩ ⟨.done, K, t⟩ := by
  obtain heq | ⟨p, hstep, hrest⟩ := h.cases_head
  · cases heq
  · cases hstep
    exact hrest

/-- A program that ends does so within whatever is around it. -/
theorem Means.path {C : Counts M} {b : Prog W} (h : Means C b s t) (K : List (Frame W)) :
    Path M ⟨b, K, s⟩ ⟨.done, K, t⟩ := by
  induction h generalizing K with
  | done => exact .refl
  | word h hnext ih => exact .head (.word h) (ih K)
  | ifTrue h hbody hnext ihb ihk => exact .head (.ifTrue h) ((ihb _).trans (.head .ifEnd (ihk K)))
  | ifFalse h hnext ih => exact .head (.ifFalse h) (ih K)
  | untilFalse hbody h hrest ihb ihr =>
    exact .head .untilLoop ((ihb _).trans (.head (.untilFalse h) (ihr K).body))
  | untilTrue hbody h hnext ihb ihk =>
    exact .head .untilLoop ((ihb _).trans (.head (.untilTrue h) (ihk K)))
  | forNext h r hfirst hround hnext ihb ihk =>
    have henter := C.enter h
    rw [← hfirst] at henter
    exact .head (.forNext henter) ((rounds_path C h (Nat.le_refl _) fun i hi => ihb i hi _).trans (ihk K))
  | @forAft _ n _ _ _ _ h r hfirst hround hnext ihb ihk =>
    have henter := C.enter h
    rw [← hfirst] at henter
    refine .head (.forAft henter) ?_
    cases n with
    | zero => exact .head (.nextEnd C.last) (ihk K)
    | succ n =>
      have hmore := C.more (i := n) (u := r 0) h (Nat.lt_succ_self n)
      refine .head (.nextMore hmore) ((rounds_path C h (Nat.le_succ n) fun i hi => ?_).trans (ihk K))
      exact ihb i (Nat.lt_succ_of_le hi) _

end Runs

-- ---------------------------------------------------------------------------
-- Linear code
-- ---------------------------------------------------------------------------

/-- Instructions, with positions in the code as the targets of branches. -/
inductive Inst (W : Type*) where
  | word (w : W)
  | jump (i : Nat)
  /-- To `i` if the flag is false. -/
  | unless (i : Nat)
  | enter
  /-- To `i` for one more round. -/
  | next (i : Nat)

structure Sizes (W : Type*) where
  word : W → Nat
  branch : Nat
  enter : Nat

section Code

variable (z : Sizes W)

def Inst.size : Inst W → Nat
  | .word w => z.word w
  | .jump _ | .unless _ | .next _ => z.branch
  | .enter => z.enter

def span (l : List (Inst W)) : Nat := (l.map (Inst.size z)).sum

namespace Prog

def size : Prog W → Nat
  | done => 0
  | word w k => z.word w + k.size
  | ifThen b k | untilLoop b k | againLoop b k => z.branch + b.size + k.size
  | forNext b k => z.enter + b.size + z.branch + k.size
  | forAft b k => z.enter + z.branch + b.size + z.branch + k.size

/-- The code of a program at a position. -/
def compile : Prog W → Nat → List (Inst W)
  | done, _ => []
  | word w k, p => .word w :: k.compile (p + z.word w)
  | ifThen b k, p =>
    .unless (p + z.branch + b.size z) :: (b.compile (p + z.branch) ++
      k.compile (p + z.branch + b.size z))
  | untilLoop b k, p => b.compile p ++ .unless p :: k.compile (p + b.size z + z.branch)
  | againLoop b k, p => b.compile p ++ .jump p :: k.compile (p + b.size z + z.branch)
  | forNext b k, p =>
    .enter :: (b.compile (p + z.enter) ++ .next (p + z.enter) ::
      k.compile (p + z.enter + b.size z + z.branch))
  | forAft b k, p =>
    .enter :: .jump (p + z.enter + z.branch + b.size z) ::
      (b.compile (p + z.enter + z.branch) ++ .next (p + z.enter + z.branch) ::
        k.compile (p + z.enter + z.branch + b.size z + z.branch))

end Prog

variable {z}

@[simp] theorem span_nil : span z ([] : List (Inst W)) = 0 := rfl

@[simp] theorem span_cons (i : Inst W) (l : List (Inst W)) : span z (i :: l) = i.size z + span z l := by
  simp [span]

@[simp] theorem span_append (l l' : List (Inst W)) : span z (l ++ l') = span z l + span z l' := by
  simp [span]

theorem span_compile (b : Prog W) (p : Nat) : span z (b.compile z p) = b.size z := by
  induction b generalizing p with
  | done => rfl
  | word w k ih => simp [Prog.compile, Prog.size, Inst.size, ih]
  | _ b k ihb ihk =>
    simp only [Prog.compile, Prog.size, span_cons, span_append, Inst.size, ihb, ihk]
    omega

/-- Where a branch goes. -/
def Inst.target? : Inst W → Option Nat
  | .jump i | .unless i | .next i => some i
  | _ => none

/-- No branch goes beyond `e`. -/
def Within (e : Nat) (l : List (Inst W)) : Prop := ∀ i ∈ l, ∀ t, i.target? = some t → t ≤ e

theorem Within.cons {l : List (Inst W)} (hi : ∀ t, i.target? = some t → t ≤ e) (h : Within e l) :
    Within e (i :: l) := List.forall_mem_cons.mpr ⟨hi, h⟩

theorem Within.branch {l : List (Inst W)} (hi : i.target? = some t) (ht : t ≤ e) (h : Within e l) :
    Within e (i :: l) := h.cons fun u hu => by
  rw [hi, Option.some.injEq] at hu
  exact hu ▸ ht

theorem Within.append {l l' : List (Inst W)} (h : Within e l) (h' : Within e l') :
    Within e (l ++ l') := List.forall_mem_append.mpr ⟨h, h'⟩

theorem Within.mono {l : List (Inst W)} (h : Within e l) (he : e ≤ e') : Within e' l :=
  fun i hi t ht => Nat.le_trans (h i hi t ht) he

/-- The branches of a program stay within its code. -/
theorem within_compile (b : Prog W) (p : Nat) : Within (p + b.size z) (b.compile z p) := by
  induction b generalizing p with
  | done => exact List.forall_mem_nil _
  | word w k ih => exact ((ih _).mono (by simp only [Prog.size]; omega)).cons fun t ht => by cases ht
  | forNext b k ihb ihk =>
    simp only [Prog.size, Prog.compile]
    refine .cons (fun t ht => by cases ht) (.append ((ihb _).mono (by omega)) (.branch rfl (by omega) ?_))
    exact (ihk _).mono (by omega)
  | forAft b k ihb ihk =>
    simp only [Prog.size, Prog.compile]
    refine .cons (fun t ht => by cases ht) (.branch rfl (by omega) (.append ((ihb _).mono (by omega)) ?_))
    exact .branch rfl (by omega) ((ihk _).mono (by omega))
  | ifThen b k ihb ihk =>
    simp only [Prog.size, Prog.compile]
    exact .branch rfl (by omega) (.append ((ihb _).mono (by omega)) ((ihk _).mono (by omega)))
  | _ b k ihb ihk =>
    simp only [Prog.size, Prog.compile]
    exact .append ((ihb _).mono (by omega)) (.branch rfl (by omega) ((ihk _).mono (by omega)))

/-- The instructions stand in the code at `p`. -/
def Stands (z : Sizes W) (code : List (Inst W)) (p : Nat) (l : List (Inst W)) : Prop :=
  ∃ pre suf, code = pre ++ l ++ suf ∧ span z pre = p

theorem Stands.left (h : Stands z code p (l ++ l')) : Stands z code p l := by
  obtain ⟨pre, suf, rfl, rfl⟩ := h
  exact ⟨pre, l' ++ suf, by simp, rfl⟩

theorem Stands.right (h : Stands z code p (l ++ l')) : Stands z code (p + span z l) l' := by
  obtain ⟨pre, suf, rfl, rfl⟩ := h
  exact ⟨pre ++ l, suf, by simp, span_append ..⟩

theorem Stands.head (h : Stands z code p (i :: l)) : Stands z code p [i] := h.left (l := [i])

theorem Stands.tail (h : Stands z code p (i :: l)) : Stands z code (p + i.size z) l := by
  have htail := h.right (l := [i])
  rwa [span_cons, span_nil, Nat.add_zero] at htail

theorem Stands.target_le (h : Stands z code p [i]) (hcode : Within e code) (hi : i.target? = some t) :
    t ≤ e := by
  obtain ⟨pre, suf, rfl, -⟩ := h
  exact hcode i (by simp) t hi

theorem Stands.all (code : List (Inst W)) : Stands z code 0 code := ⟨[], [], by simp, rfl⟩

/-- One instruction of the code. -/
inductive Exec (M : Meaning W S) (z : Sizes W) (code : List (Inst W)) : Nat × S → Nat × S → Prop
  | word (hi : Stands z code p [.word w]) (h : M.run w s t) : Exec M z code (p, s) (p + z.word w, t)
  | jump (hi : Stands z code p [.jump i]) : Exec M z code (p, s) (i, s)
  | pass (hi : Stands z code p [.unless i]) (h : M.flag s true t) :
    Exec M z code (p, s) (p + z.branch, t)
  | branch (hi : Stands z code p [.unless i]) (h : M.flag s false t) : Exec M z code (p, s) (i, t)
  | enter (hi : Stands z code p [.enter]) (h : M.enter s t) : Exec M z code (p, s) (p + z.enter, t)
  | more (hi : Stands z code p [.next i]) (h : M.more s true t) : Exec M z code (p, s) (i, t)
  | last (hi : Stands z code p [.next i]) (h : M.more s false t) :
    Exec M z code (p, s) (p + z.branch, t)

/-- What stands behind a body at `p`, up to the end of the code. -/
def Awaits (z : Sizes W) (code : List (Inst W)) : Nat → List (Frame W) → Prop
  | p, [] => p = span z code
  | p, .ifEnd k :: K => Stands z code p (k.compile z p) ∧ Awaits z code (p + k.size z) K
  | p, .untilEnd b k :: K => ∃ i, i + b.size z = p ∧ Stands z code i (b.compile z i) ∧
    Stands z code p (.unless i :: k.compile z (p + z.branch)) ∧
    Awaits z code (p + z.branch + k.size z) K
  | p, .againEnd b k :: K => ∃ i, i + b.size z = p ∧ Stands z code i (b.compile z i) ∧
    Stands z code p (.jump i :: k.compile z (p + z.branch)) ∧
    Awaits z code (p + z.branch + k.size z) K
  | p, .nextEnd b k :: K => ∃ i, i + b.size z = p ∧ Stands z code i (b.compile z i) ∧
    Stands z code p (.next i :: k.compile z (p + z.branch)) ∧
    Awaits z code (p + z.branch + k.size z) K

/-- The code at `p` is that of a point of a program. -/
def At (z : Sizes W) (code : List (Inst W)) (p : Nat) (x : Point W S) : Prop :=
  Stands z code p (x.prog.compile z p) ∧ Awaits z code (p + x.prog.size z) x.frames

theorem At.start (b : Prog W) (s : S) : At z (b.compile z 0) 0 ⟨b, [], s⟩ :=
  ⟨.all _, by simp [Awaits, span_compile]⟩

theorem At.done (h : At z code p (⟨.done, [], s⟩ : Point W S)) : p = span z code := h.2

theorem Awaits.congr {K : List (Frame W)} (h : Awaits z code p K) (hp : p = q) :
    Awaits z code q K := hp ▸ h

/-- Behind its code, a loop with the branch `i` waits for its body. -/
theorem stands_loop {b k : Prog W} {i : Inst W} (h : Stands z code p (b.compile z p ++ i ::
    k.compile z (p + b.size z + i.size z))) : Stands z code p (b.compile z p) ∧
      Stands z code (p + b.size z) (i :: k.compile z (p + b.size z + i.size z)) := by
  have hright := h.right
  rw [span_compile] at hright
  exact ⟨h.left, hright⟩

/-- How much of a program is left before the next word, test or branch. -/
def Prog.weight : Prog W → Nat
  | .done => 0
  | .word _ k => 1 + k.weight
  | .ifThen b k | .untilLoop b k | .againLoop b k | .forNext b k | .forAft b k => 1 + b.weight + k.weight

/-- The conditionals that end one after the other. -/
def ends : List (Frame W) → Nat
  | .ifEnd k :: K => 1 + k.weight + ends K
  | _ => 0

def Point.rank (x : Point W S) : Nat := x.prog.weight + ends x.frames

/-- The code makes each step of the program. It stands still where a loop is entered or a
conditional ends, which cannot go on. -/
theorem Step.progress {M : Meaning W S} {x y : Point W S} (h : Step M x y) (hat : At z code p x) :
    (∃ p', Relation.TransGen (Exec M z code) (p, x.state) (p', y.state) ∧ At z code p' y) ∨
      (x.state = y.state ∧ At z code p y ∧ y.rank < x.rank) := by
  obtain ⟨hcode, hK⟩ := hat
  cases h with
  | word h => exact .inl ⟨_, .single (.word hcode.head h), hcode.tail, hK.congr (Nat.add_assoc ..).symm⟩
  | @ifTrue s t b k K h =>
    refine .inl ⟨_, .single (.pass hcode.head h), hcode.tail.left, ?_, hK.congr ?_⟩
    · have hnext := hcode.tail.right
      rwa [span_compile] at hnext
    · simp only [Prog.size]
      omega
  | @ifFalse s t b k K h =>
    refine .inl ⟨_, .single (.branch hcode.head h), ?_, hK.congr ?_⟩
    · have hnext := hcode.tail.right
      rwa [span_compile] at hnext
    · simp only [Prog.size]
      omega
  | ifEnd =>
    refine .inr ⟨rfl, hK, ?_⟩
    simp only [Point.rank, Prog.weight, ends]
    omega
  | untilLoop =>
    obtain ⟨hbody, hnext⟩ := stands_loop (i := .unless p) hcode
    refine .inr ⟨rfl, ⟨hbody, p, rfl, hbody, hnext, hK.congr ?_⟩, ?_⟩
    · simp only [Prog.size]
      omega
    · simp only [Point.rank, Prog.weight, ends]
      omega
  | untilFalse h =>
    obtain ⟨i, rfl, hbody, hnext, hK⟩ := hK
    exact .inl ⟨_, .single (.branch hnext.head h), hbody, i, rfl, hbody, hnext, hK⟩
  | untilTrue h =>
    obtain ⟨i, rfl, hbody, hnext, hK⟩ := hK
    exact .inl ⟨_, .single (.pass hnext.head h), hnext.tail, hK⟩
  | againLoop =>
    obtain ⟨hbody, hnext⟩ := stands_loop (i := .jump p) hcode
    refine .inr ⟨rfl, ⟨hbody, p, rfl, hbody, hnext, hK.congr ?_⟩, ?_⟩
    · simp only [Prog.size]
      omega
    · simp only [Point.rank, Prog.weight, ends]
      omega
  | againEnd =>
    obtain ⟨i, rfl, hbody, hnext, hK⟩ := hK
    exact .inl ⟨_, .single (.jump hnext.head), hbody, i, rfl, hbody, hnext, hK⟩
  | forNext h =>
    obtain ⟨hbody, hnext⟩ := stands_loop (i := .next (p + z.enter)) hcode.tail
    refine .inl ⟨_, .single (.enter hcode.head h), hbody, _, rfl, hbody, hnext, hK.congr ?_⟩
    simp only [Prog.size]
    omega
  | forAft h =>
    obtain ⟨hbody, hnext⟩ := stands_loop (i := .next (p + z.enter + z.branch)) hcode.tail.tail
    refine .inl ⟨_, .head (.enter hcode.head h) (.single (.jump hcode.tail.head)), hnext.left (l := []), _,
      rfl, hbody, hnext, hK.congr ?_⟩
    simp only [Prog.size]
    omega
  | nextMore h =>
    obtain ⟨i, rfl, hbody, hnext, hK⟩ := hK
    exact .inl ⟨_, .single (.more hnext.head h), hbody, i, rfl, hbody, hnext, hK⟩
  | nextEnd h =>
    obtain ⟨i, rfl, hbody, hnext, hK⟩ := hK
    exact .inl ⟨_, .single (.last hnext.head h), hnext.tail, hK⟩

theorem Step.simulated {M : Meaning W S} {x y : Point W S} (h : Step M x y) (hat : At z code p x) :
    ∃ p', ReflTransGen (Exec M z code) (p, x.state) (p', y.state) ∧ At z code p' y := by
  obtain ⟨p', hexecs, hat'⟩ | ⟨hstate, hat', -⟩ := h.progress hat
  · exact ⟨p', hexecs.to_reflTransGen, hat'⟩
  · exact ⟨p, hstate ▸ .refl, hat'⟩

theorem Path.simulated {M : Meaning W S} {x y : Point W S} (h : Path M x y) (hat : At z code p x) :
    ∃ p', ReflTransGen (Exec M z code) (p, x.state) (p', y.state) ∧ At z code p' y := by
  induction h with
  | refl => exact ⟨p, .refl, hat⟩
  | tail _ hstep ih =>
    obtain ⟨q, hq, hatq⟩ := ih
    obtain ⟨p', hp', hat'⟩ := hstep.simulated hatq
    exact ⟨p', hq.trans hp', hat'⟩

end Code

end Allwinner.Library.Structured
