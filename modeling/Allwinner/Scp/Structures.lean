import Allwinner.Library.Structured
import Allwinner.Scp.Threaded

/-!
# The control structures of a definition

A body is made of literals and execution tokens, with the control structures around them.
What the compiler leaves of it in the dictionary runs it: branches are made of the addresses
of half words, and a loop keeps its counter on the return stack.
-/

namespace Allwinner.Scp

open Library Memory
open Library.Structured (Prog Inst Sizes Meaning Counts Point Path Means Exec At)
open Forth hiding ip ds rs mem io jump one two

/-- What a word of a body becomes. -/
inductive Atom where
  | lit (v : Cell)
  | xt (x : Half)
  deriving DecidableEq

/-- A body of a definition. -/
abbrev Body := Prog Atom

/-- What a word works on: its part of the return stack is what it has pushed itself. -/
structure Local where
  ds : List Cell
  rs : List Ip
  mem : Memory 32
  io : Io

/-- In front of `ip`, with `R` as the rest of the return stack. -/
abbrev Local.at (s : Local) (ip : Ip) (R : List Ip) : Forth := ⟨ip, s.ds, s.rs ++ R, s.mem, s.io, none⟩

-- ---------------------------------------------------------------------------
-- The code of a body
-- ---------------------------------------------------------------------------

/-- In half words. -/
def sizes : Sizes Atom where
  word
    | .lit _ => 3
    | .xt _ => 1
  branch := 2
  enter := 1

def Atom.halves : Atom → List Half
  | lit v => [Label.dolit.offset, v.extractLsb' 16 16, v.extractLsb' 0 16]
  | xt x => [x]

/-- Positions count from the first half word behind the code field at `a`. -/
def halves (a : Cell) : Inst Atom → List Half
  | .word w => w.halves
  | .jump i => [Label.branch.offset, xta (pos a (i + 1))]
  | .unless i => [Label.qbranch.offset, xta (pos a (i + 1))]
  | .enter => [Label.tor.offset]
  | .next i => [Label.next.offset, xta (pos a (i + 1))]

/-- The code of a definition at `a`. -/
def definition_code (a : Cell) (b : Body) : List Half :=
  Prim.code .dolist :: ((b.compile sizes 0).flatMap (halves a) ++ [Label.exit.offset])

theorem length_halves (a : Cell) (i : Inst Atom) : (halves a i).length = i.size sizes := by
  cases i with
  | word w => cases w <;> rfl
  | _ => rfl

theorem length_flatMap_halves (a : Cell) (l : List (Inst Atom)) :
    (l.flatMap (halves a)).length = Structured.span sizes l := by
  induction l with
  | nil => rfl
  | cons i l ih => rw [List.flatMap_cons, List.length_append, length_halves, ih, Structured.span_cons]

theorem length_definition_code (a : Cell) (b : Body) :
    (definition_code a b).length = b.size sizes + 2 := by
  rw [definition_code, List.length_cons, List.length_append, length_flatMap_halves,
    Structured.span_compile]
  rfl

/-- The half words of an instruction stand behind the code field. -/
theorem stands_halves {a : Cell} {b : Body} (h : Structured.Stands sizes (b.compile sizes 0) p [i]) (j : Nat)
    (hj : (halves a i)[j]? = some x) : (definition_code a b)[p + 1 + j]? = some x := by
  obtain ⟨pre, suf, hcode, hp⟩ := h
  have hlt := (List.getElem?_eq_some_iff.mp hj).1
  rw [definition_code, hcode, show p + 1 + j = p + j + 1 by omega, List.getElem?_cons_succ, ← hp,
    ← length_flatMap_halves a, List.flatMap_append, List.flatMap_append, List.append_assoc,
    List.append_assoc, List.getElem?_append_right (Nat.le_add_right ..), Nat.add_sub_cancel_left,
    List.flatMap_singleton, List.getElem?_append_left hlt, hj]

/-- Within the code there is a half word at each position. -/
theorem exists_half {a : Cell} {b : Body} (hi : i ≤ b.size sizes) :
    ∃ x, (definition_code a b)[i + 1]? = some x := by
  have hlen := length_definition_code a b
  exact ⟨_, List.getElem?_eq_getElem (by omega)⟩

theorem end_half (a : Cell) (b : Body) :
    (definition_code a b)[b.size sizes + 1]? = some Label.exit.offset := by
  have hlen : ((b.compile sizes 0).flatMap (halves a)).length = b.size sizes := by
    rw [length_flatMap_halves, Structured.span_compile]
  rw [definition_code, List.getElem?_cons_succ, ← hlen, List.getElem?_append_right (Nat.le_refl _),
    Nat.sub_self]
  rfl

-- ---------------------------------------------------------------------------
-- The meaning of a body
-- ---------------------------------------------------------------------------

/-- FOR takes the number of a loop. Within a round the counter is on the return stack. -/
def Counted (s : Local) (n : Nat) (t : Local) : Prop :=
  ∃ c ds, s.ds = c :: ds ∧ c.toNat = n ∧ t = { s with ds }

def Local.round (i : Nat) (s : Local) : Local := { s with rs := .ram (BitVec.ofNat 32 i) :: s.rs }

theorem ofNat_succ_ne_zero (h : i + 1 < 2 ^ 32) : BitVec.ofNat 32 (i + 1) ≠ 0 := by
  intro hzero
  have := congrArg BitVec.toNat hzero
  rw [BitVec.toNat_ofNat, Nat.mod_eq_of_lt h] at this
  cases this

theorem ofNat_succ_sub_one (i : Nat) : BitVec.ofNat 32 (i + 1) - 1 = BitVec.ofNat 32 i := by
  rw [BitVec.ofNat_add]
  exact BitVec.add_sub_cancel _ _

section Words

variable [Board]

/-- The word at `x` comes back, wherever it is called. -/
def Computes (x : Cell) (s t : Local) : Prop :=
  ∀ ip R, ∃ u, enter false x (s.at ip R) = .on u ∧ Leads u (t.at ip R)

/-- On stacks of the size the firmware has, the word at `x` comes back the same way, or one of them
overflows before. -/
def Finishes (x : Cell) (s t : Local) : Prop :=
  ∀ ip R, Ends { s.at ip R with jump := some x } (t.at ip R)

theorem Computes.finishes {x : Cell} {s t : Local} (h : Computes x s t) : Finishes x s t := by
  intro ip R
  obtain ⟨u, henter, hleads⟩ := h ip R
  exact Leads.ends (.head henter hleads)

/-- A word of the firmware does what it does from any list. -/
theorem Does.computes {l : Label} (h : Does l m pre post m') (hl : l ∈ Label.all.drop 8) :
    Computes (start + l.offset.setWidth 32) ⟨pre ++ ds, rs, m, io⟩ ⟨post ++ ds, rs, m', io⟩ :=
  fun ip R => h.performs hl ip ds (rs ++ R) io

/-- Numbers are pushed and words executed, those that leave `Kept`. A flag is any cell, a loop
ends at counter zero. -/
def meaning (Kept : Memory 32 → Prop) : Meaning Atom Local where
  run
    | .lit v, s, t => t = { s with ds := v :: s.ds }
    | .xt x, s, t => Computes (start + x.setWidth 32) s t ∧ Kept t.mem
  flag s f t := ∃ c ds, s.ds = c :: ds ∧ f = (c != 0) ∧ t = { s with ds }
  enter s t := ∃ c ds, s.ds = c :: ds ∧ t = { s with ds, rs := .ram c :: s.rs }
  more s f t := ∃ r rs, s.rs = r :: rs ∧ f = (r.addr != 0) ∧
    t = { s with rs := if r.addr = 0 then rs else .ram (r.addr - 1) :: rs }

/-- The loops of Forth count. -/
def counts (Kept : Memory 32 → Prop) : Counts (meaning Kept) where
  count := Counted
  inside := Local.round
  enter := by
    rintro s n t ⟨c, ds, hds, rfl, rfl⟩
    exact ⟨c, ds, hds, by simp [Local.round]⟩
  more := by
    rintro s n t i u ⟨c, ds, -, rfl, -⟩ hi
    have hlt := c.isLt
    have hne := ofNat_succ_ne_zero (i := i) (by omega)
    refine ⟨.ram (BitVec.ofNat 32 (i + 1)), u.rs, rfl, ?_, ?_⟩
    · exact (bne_iff_ne.mpr hne).symm
    · rw [show Ip.addr (.ram (BitVec.ofNat 32 (i + 1))) = BitVec.ofNat 32 (i + 1) from rfl, if_neg hne,
        ofNat_succ_sub_one]
      rfl
  last := ⟨.ram 0, _, rfl, rfl, rfl⟩

variable [Sram] {a : Cell} {b : Body}

/-- The code of a body stands at `a`, and words leave it as it is. -/
abbrev kept_meaning (a : Cell) (b : Body) : Meaning Atom Local :=
  meaning fun m => Code m a (definition_code a b)

/-- Each instruction of the code is executed, and takes the machine a step at least. -/
theorem exec_progress (hcode : Code s.mem a (definition_code a b))
    (h : Exec (kept_meaning a b) sizes (b.compile sizes 0) (p, s) (p', t)) (R : List Ip) :
    Relation.TransGen Steps (s.at (.ram (pos a (p + 1))) R) (t.at (.ram (pos a (p' + 1))) R) ∧
      Code t.mem a (definition_code a b) := by
  have htarget {i : Inst Atom} {t : Nat} (hi : Structured.Stands sizes (b.compile sizes 0) p [i])
      (ht : i.target? = some t) : ∃ x, (definition_code a b)[t + 1]? = some x := by
    have hle := hi.target_le (Structured.within_compile b 0) ht
    exact exists_half (by omega)
  cases h with
  | @word _ w _ _ hi h =>
    cases w with
    | lit v =>
      obtain rfl := h
      exact ⟨.single (hcode.lit_steps (stands_halves hi 0 rfl) (stands_halves hi 1 rfl) (stands_halves hi 2 rfl)),
        hcode⟩
    | xt x =>
      obtain ⟨hcomputes, hkept⟩ := h
      obtain ⟨u, henter, hleads⟩ := hcomputes (.ram (pos a (p + 2))) R
      exact ⟨.head' (hcode.token_steps (stands_halves hi 0 rfl) henter) hleads, hkept⟩
  | jump hi =>
    obtain ⟨x, hx⟩ := htarget hi rfl
    exact ⟨.single (hcode.branch_steps (stands_halves hi 0 rfl) (stands_halves hi 1 rfl) hx), hcode⟩
  | pass hi h =>
    obtain ⟨c, ds, hds, hc, rfl⟩ := h
    refine ⟨?_, hcode⟩
    rw [Local.at, hds]
    exact .single (hcode.qbranch_passed_steps (stands_halves hi 0 rfl) (stands_halves hi 1 rfl)
      (bne_iff_ne.mp hc.symm))
  | branch hi h =>
    obtain ⟨c, ds, hds, hc, rfl⟩ := h
    obtain ⟨x, hx⟩ := htarget hi rfl
    obtain rfl : c = 0 := by simpa using hc.symm
    refine ⟨?_, hcode⟩
    rw [Local.at, hds]
    exact .single (hcode.qbranch_taken_steps (stands_halves hi 0 rfl) (stands_halves hi 1 rfl) hx)
  | enter hi h =>
    obtain ⟨c, ds, hds, rfl⟩ := h
    refine ⟨?_, hcode⟩
    rw [Local.at, hds]
    exact .single (hcode.label_steps (stands_halves hi 0 rfl) (by decide) rfl)
  | more hi h =>
    obtain ⟨r, rs, hrs, hr, rfl⟩ := h
    obtain ⟨x, hx⟩ := htarget hi rfl
    have hne : r.addr ≠ 0 := bne_iff_ne.mp hr.symm
    refine ⟨?_, hcode⟩
    rw [Local.at, Local.at, hrs, if_neg hne]
    exact .single (hcode.next_taken_steps (stands_halves hi 0 rfl) (stands_halves hi 1 rfl) hx hne)
  | last hi h =>
    obtain ⟨r, rs, hrs, hr, rfl⟩ := h
    have hzero : r.addr = 0 := by simpa using hr.symm
    refine ⟨?_, hcode⟩
    rw [Local.at, Local.at, hrs, if_pos hzero]
    exact .single (hcode.next_passed_steps (stands_halves hi 0 rfl) hzero)

theorem exec_leads (hcode : Code s.mem a (definition_code a b))
    (h : Exec (kept_meaning a b) sizes (b.compile sizes 0) (p, s) (p', t)) (R : List Ip) :
    Leads (s.at (.ram (pos a (p + 1))) R) (t.at (.ram (pos a (p' + 1))) R) ∧
      Code t.mem a (definition_code a b) :=
  (exec_progress hcode h R).imp_left Relation.TransGen.to_reflTransGen

theorem execs_lead {x y : Nat × Local} (hcode : Code x.2.mem a (definition_code a b))
    (h : Relation.ReflTransGen (Exec (kept_meaning a b) sizes (b.compile sizes 0)) x y) (R : List Ip) :
    Leads (x.2.at (.ram (pos a (x.1 + 1))) R) (y.2.at (.ram (pos a (y.1 + 1))) R) ∧
      Code y.2.mem a (definition_code a b) := by
  induction h with
  | refl => exact ⟨.refl, hcode⟩
  | tail _ hexec ih =>
    obtain ⟨hleads, hmid⟩ := ih
    obtain ⟨hstep, hend⟩ := exec_leads hmid hexec R
    exact ⟨hleads.trans hstep, hend⟩

/-- What the word at `a` does is what `b` means: it comes to every state of the body, with the way
back below, and comes back with what the body ends with, also on the stacks of the firmware as long
as they have room. -/
structure Implements (a : Cell) (b : Body) : Prop where
  reaches : ∀ {ds : List Cell} {m : Memory 32} {io : Io} {x : Point Atom Local},
    Code m a (definition_code a b) → Path (kept_meaning a b) ⟨b, [], ⟨ds, [], m, io⟩⟩ x →
    ∀ ip rs, ∃ u p, enter false a ⟨ip, ds, rs, m, io, none⟩ = .on u ∧
      Leads u (x.state.at (.ram (pos a p)) (ip :: rs))
  returns : ∀ {ds ds' : List Cell} {m m' : Memory 32} {io io' : Io},
    Code m a (definition_code a b) →
    Means (counts fun m => Code m a (definition_code a b)) b ⟨ds, [], m, io⟩ ⟨ds', [], m', io'⟩ →
    ∀ rs, Computes a ⟨ds, rs, m, io⟩ ⟨ds', rs, m', io'⟩
  finishes : ∀ {ds ds' : List Cell} {m m' : Memory 32} {io io' : Io},
    Code m a (definition_code a b) →
    Means (counts fun m => Code m a (definition_code a b)) b ⟨ds, [], m, io⟩ ⟨ds', [], m', io'⟩ →
    ∀ rs, Finishes a ⟨ds, rs, m, io⟩ ⟨ds', rs, m', io'⟩

theorem means_computes {ds ds' : List Cell} {m m' : Memory 32} {io io' : Io}
    (hcode : Code m a (definition_code a b))
    (hmeans : Means (counts fun m => Code m a (definition_code a b)) b ⟨ds, [], m, io⟩ ⟨ds', [], m', io'⟩)
    (rs : List Ip) : Computes a ⟨ds, rs, m, io⟩ ⟨ds', rs, m', io'⟩ := by
  intro ip R
  obtain ⟨p, hexecs, hat⟩ := (hmeans.path []).simulated (Structured.At.start b _)
  obtain rfl : p = b.size sizes := hat.done.trans (Structured.span_compile b 0)
  obtain ⟨hleads, hkept⟩ := execs_lead hcode hexecs (ip :: (rs ++ R))
  exact ⟨_, hcode.enters rfl, hleads.trans (hkept.exits (end_half a b))⟩

/-- The code of a body implements it. -/
theorem implements (a : Cell) (b : Body) : Implements a b where
  reaches hcode hpath ip rs := by
    obtain ⟨p, hexecs, -⟩ := hpath.simulated (Structured.At.start b _)
    exact ⟨_, p + 1, hcode.enters rfl, (execs_lead hcode hexecs (ip :: rs)).1⟩
  returns := means_computes
  finishes hcode hmeans rs := (means_computes hcode hmeans rs).finishes

end Words

end Allwinner.Scp
