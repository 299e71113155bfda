import Allwinner.Library.Divergence
import Allwinner.Scp.Programs

/-!
# Words that never come back

A body with an endless loop runs forever, however deep the loop is in the control structures and
in the words it calls. So does the evaluation of a text that comes to such a word.
-/

namespace Allwinner.Scp

open Library Memory
open Library.Structured (Prog Point Path Step Exec At)
open Forth hiding ip ds rs mem io jump one two

section Words

variable [Board]

/-- The word at `x` is called and runs forever. -/
def Loops (x : Cell) (s : Local) : Prop := ∀ ip R, ∃ u, enter false x (s.at ip R) = .on u ∧ Diverges Steps u

/-- Called from where the machine would stop, a word that runs forever does not get there. -/
theorem Loops.not_computes {x : Cell} {s t : Local} (h : Loops x s) : ¬ Computes x s t := by
  intro hcomputes
  obtain ⟨u, henter, hdiverges⟩ := h (.rom .main 1000) []
  obtain ⟨u', henter', hleads⟩ := hcomputes (.rom .main 1000) []
  obtain rfl : u = u' := Turn.on.inj (henter.symm.trans henter')
  have hunique : Relator.RightUnique Steps := fun _ _ _ h h' => steps_unique h h'
  obtain ⟨v, hstep⟩ := hdiverges.not_stuck hunique hleads
  cases hstep

variable [Sram] {a : Cell} {b : Body} {s : Local} {m : Memory 32} {io : Io}

theorem execs_progress {x y : Nat × Local} (hcode : Code x.2.mem a (definition_code a b))
    (h : Relation.TransGen (Exec (kept_meaning a b) sizes (b.compile sizes 0)) x y) (R : List Ip) :
    Relation.TransGen Steps (x.2.at (.ram (pos a (x.1 + 1))) R) (y.2.at (.ram (pos a (y.1 + 1))) R) ∧
      Code y.2.mem a (definition_code a b) := by
  induction h with
  | single hexec => exact exec_progress hcode hexec R
  | tail _ hexec ih =>
    obtain ⟨hsteps, hmid⟩ := ih
    obtain ⟨hstep, hend⟩ := exec_progress hmid hexec R
    exact ⟨hsteps.trans hstep, hend⟩

/-- The machine is at a point of a body. -/
def Follows (a : Cell) (b : Body) (R : List Ip) (x : Point Atom Local) (u : Forth) : Prop :=
  ∃ p, At sizes (b.compile sizes 0) p x ∧ Code x.state.mem a (definition_code a b) ∧
    u = x.state.at (.ram (pos a (p + 1))) R

theorem Follows.diverges {R : List Ip} {x : Point Atom Local} {u : Forth}
    (hx : Diverges (Step (kept_meaning a b)) x) (h : Follows a b R x u) : Diverges Steps u := by
  refine hx.simulated Point.rank ?_ h
  rintro x y u hstep ⟨p, hat, hcode, rfl⟩
  obtain ⟨p', hexecs, hat'⟩ | ⟨hstate, hat', hlt⟩ := hstep.progress hat
  · obtain ⟨hsteps, hcode'⟩ := execs_progress hcode hexecs R
    exact .inl ⟨_, hsteps, p', hat', hcode', rfl⟩
  · exact .inr ⟨⟨p, hat', hstate ▸ hcode, by rw [hstate]⟩, hlt⟩

/-- A run of the body goes on forever, or comes to the call of a word that does. -/
inductive Endless (a : Cell) (b : Body) (s : Local) : Prop
  | loop (h : Diverges (Step (kept_meaning a b)) ⟨b, [], s⟩)
  | call {x : Half} {k : Body} {t : Local} (hpath : Path (kept_meaning a b) ⟨b, [], s⟩ ⟨.word (.xt x) k, K, t⟩)
    (hx : Loops (start + x.setWidth 32) t)

theorem Endless.loops {ds : List Cell} (h : Endless a b ⟨ds, [], m, io⟩)
    (hcode : Code m a (definition_code a b)) (rs : List Ip) : Loops a ⟨ds, rs, m, io⟩ := by
  intro ip R
  refine ⟨_, hcode.enters rfl, ?_⟩
  cases h with
  | loop h => exact Follows.diverges (R := ip :: (rs ++ R)) h ⟨0, .start b _, hcode, rfl⟩
  | @call K x k t hpath hx =>
    obtain ⟨p, hexecs, hat⟩ := hpath.simulated (At.start b _)
    obtain ⟨hleads, hcode'⟩ := execs_lead hcode hexecs (ip :: (rs ++ R))
    obtain ⟨u, henter, hdiverges⟩ := hx (.ram (pos a (p + 2))) (ip :: (rs ++ R))
    have htoken := hcode'.token (stands_halves hat.1.head 0 rfl) henter
    exact .of_reaches (hleads.trans htoken) hdiverges

-- ---------------------------------------------------------------------------
-- Texts
-- ---------------------------------------------------------------------------

/-- Numbers and words up to a word that runs forever. -/
inductive Interminable (ds : List Dentry) (b : Nat) : List (List Byte) → Store → List Cell → Prop
  | here (hnone : recognised b t = none) (hd : lookup ds t = some d)
    (hloops : Loops (start + d.token) ⟨st, [], u.scanned.mem, u.io⟩) : Interminable ds b (t :: ts) u st
  | number (hv : recognised b t = some x)
    (hrest : Interminable ds b ts u.scanned (BitVec.ofNat 32 x :: st)) : Interminable ds b (t :: ts) u st
  | word (hnone : recognised b t = none) (hd : lookup ds t = some d)
    (hcomputes : Computes (start + d.token) ⟨st, [], u.scanned.mem, u.io⟩ ⟨st', [], v.mem, v.io⟩)
    (hidle : Idle ds b ts v) (hrest : Interminable ds b ts v st') : Interminable ds b (t :: ts) u st

variable {ds : List Dentry} {n e : Nat} {t : List Byte} {ts : List (List Byte)} {u v : Store} {c k : Cell}
  {st : List Cell} {d : Dentry} {prog : Program} {defs : List Definition}

/-- The interpreter does not come back from a word that runs forever. -/
theorem Idle.diverges (h : Idle ds n (t :: ts) u) (hnone : recognised n t = none) (hd : lookup ds t = some d)
    (hloops : Loops (start + d.token) ⟨st, [], u.scanned.mem, u.io⟩) (rs : List Ip) :
    Diverges Steps ⟨.rom .evaluate 4, st, rs, u.mem, u.io, none⟩ := by
  obtain ⟨hend, hword, hscanned⟩ := h.scanned
  obtain ⟨y, henter, hdiverges⟩ := hloops (.rom .try_exec_dentry 4)
    (.rom .interpret_one_word 23 :: .rom .evaluate_one_word 3 :: .rom .evaluate 6 :: rs)
  have hcall : Steps ⟨.rom .evaluate 5, st, rs, u.mem, u.io, none⟩
      ⟨.rom .evaluate_one_word 0, st, .rom .evaluate 6 :: rs, u.mem, u.io, none⟩ := by
    have hk : Label.evaluate.list[5]? = some (.xt .evaluate_one_word) := rfl
    simp [Steps, act, hk, token, call, Label.prim?, dolist]
  have hnone' : recognised (load32 u.scanned.mem Label.base.storage).toNat (Scp.word u.mem) = none := by
    rw [hscanned.base, hword]
    exact hnone
  refine .of_reaches ?_ hdiverges
  calc
    Leads _ ⟨.rom .evaluate 5, st, rs, u.mem, u.io, none⟩ := run_leads (n := 1) rfl
    Leads _ ⟨.rom .evaluate_one_word 0, st, .rom .evaluate 6 :: rs, u.mem, u.io, none⟩ := .single hcall
    Leads _ _ := one_word_enters (.inl rfl) h.mode
    Leads _ _ := interpret_found (h.reading.parsable h.vocabulary) hend hnone' (by rw [hword]; exact hd)
    Leads _ y := .single henter

theorem Interminable.diverges (h : Interminable ds n ts u st) (hu : Idle ds n ts u) (rs : List Ip) :
    Diverges Steps ⟨.rom .evaluate 4, st, rs, u.mem, u.io, none⟩ := by
  induction h with
  | here hnone hd hloops => exact hu.diverges hnone hd hloops rs
  | number hv _ ih =>
    exact .of_reaches (Passes.word .start (hu.number hv)).leads (ih hu.scanned.2.2)
  | word hnone hd hcomputes hidle _ ih =>
    exact .of_reaches (Passes.word .start (hu.word hnone hd hcomputes)).leads (ih hidle)

omit [Sram] in
theorem Returns.not_diverges {l : Label} {st' : List Cell} (h : Returns l u st v st') :
    ¬ ∀ ip rs, Diverges Steps ⟨.rom l 0, st, ip :: rs, u.mem, u.io, none⟩ := by
  intro hdiverges
  have hunique : Relator.RightUnique Steps := fun _ _ _ h h' => steps_unique h h'
  obtain ⟨w, hstep⟩ := (hdiverges (.rom .main 1000) []).not_stuck hunique (h _ _)
  cases hstep

/-- On stacks of the size the firmware has, the run goes on until one of them overflows. -/
def DivergesBounded (s : Forth) : Prop :=
  ∀ n, (∃ k < n, (step^[k] s).Overflows) ∨ Diverges Steps (step^[n] s)

omit [Sram] in
theorem diverges_bounded {s : Forth} (h : Diverges Steps s) : DivergesBounded s := by
  intro n
  induction n generalizing s with
  | zero => exact .inr h
  | succ n ih =>
    obtain ⟨t, hstep, ht⟩ := h.next
    by_cases hfits : t.Fits
    · have hs : s.step = t := hstep.step_eq hfits
      refine (ih ht).imp ?_ fun hend => by rwa [Function.iterate_succ_apply, hs]
      rintro ⟨k, hk, hover⟩
      exact ⟨k + 1, by omega, by rwa [Function.iterate_succ_apply, hs]⟩
    · exact .inl ⟨0, by omega, t, hstep, hfits⟩

/-- A word of a program with a run that goes on forever never comes back, in no way. Nor does the
evaluation of the text if the words behind the definitions come to such a word. On the stacks of the
firmware the run goes on until one of them overflows. -/
theorem endless_program {b : Nat} {c n : Cell} (h : Loadable ds b prog defs ts e (u.parsing c n)) (st : List Cell) :
    ∃ v, Loads ds b defs ts e (u.parsing c n) v ∧
      (∀ x ∈ defs, ∀ s : Local, Standing defs s.mem → Endless (start + x.1.token) x.2 { s with rs := [] } →
        Loops (start + x.1.token) s ∧ (∀ t, ¬ Computes (start + x.1.token) s t) ∧
        ∀ ip R, DivergesBounded { s.at ip R with jump := some (start + x.1.token) }) ∧
      (Interminable (vocabulary defs ds) b ts v st →
        (∀ ip rs, Diverges Steps ⟨.rom .evaluate 0, n :: c :: st, ip :: rs, u.mem, u.io, none⟩ ∧
          DivergesBounded ⟨.rom .evaluate 0, n :: c :: st, ip :: rs, u.mem, u.io, none⟩) ∧
        ∀ w st', ¬ Returns .evaluate u (n :: c :: st) w st') := by
  obtain ⟨k, v, hpasses, hv⟩ := h.passes st
  refine ⟨v, hv, fun x hx s hs hendless => ?_, fun hts => ?_⟩
  · have hloops := hendless.loops (hs x hx) s.rs
    refine ⟨hloops, fun t => hloops.not_computes, fun ip R => diverges_bounded ?_⟩
    obtain ⟨y, henter, hdiverges⟩ := hloops ip R
    exact .of_reaches (.single henter) hdiverges
  have hdiverges (ip : Ip) (rs : List Ip) :
      Diverges Steps ⟨.rom .evaluate 0, n :: c :: st, ip :: rs, u.mem, u.io, none⟩ := by
    refine .of_reaches ?_ (hts.diverges
      ⟨hv.vocabulary, hv.mode, hv.base, hv.reading.mono (Set.empty_subset _)⟩ (ip :: rs))
    calc
      Leads _ ⟨.rom .evaluate 2, c :: st, ip :: rs, store32 u.mem Label.parse_len.storage n, u.io, none⟩ :=
        (Label.Var.of_isVar rfl).set rfl rfl
      Leads _ ⟨.rom .evaluate 4, st, ip :: rs, (u.parsing c n).mem, u.io, none⟩ :=
        (Label.Var.of_isVar rfl).set rfl rfl
      Leads _ _ := hpasses.leads
  exact ⟨fun ip rs => ⟨hdiverges ip rs, diverges_bounded (hdiverges ip rs)⟩, fun w st' hreturns => hreturns.not_diverges hdiverges⟩

end Words

-- ---------------------------------------------------------------------------
-- A loop in a request
-- ---------------------------------------------------------------------------

namespace Programs

local instance : Board := .flat
local instance : Sram := .flat

def climbing_text : List Byte := ascii ": climb BEGIN 1 + AGAIN ; 7 climb"

def climb : Definition := (entry_from bss_end (ascii "climb"),
  .againLoop (.word (.lit 1) (.word (.xt Label.plus.offset) .done)) .done)

theorem climb_loadable : Loadable static_dictionary 10
    [(ascii "climb", .againLoop (.word (ascii "1") (.word (ascii "+") .done)) .done)] [climb]
    [ascii "7", ascii "climb"] 80800
    ((request climbing_text).parsing mib_text (BitVec.ofNat 32 climbing_text.length)) :=
  request_loadable (by decide) (by decide +kernel) (by decide) (by decide) (by decide +kernel)

/-- The number grows, and nobody gets it. -/
theorem climb_stays : ¬ ∃ w st, Returns .evaluate (request climbing_text)
    [BitVec.ofNat 32 climbing_text.length, mib_text] w st := by
  obtain ⟨v, hv, hwords, htext⟩ := endless_program climb_loadable []
  have hidle : Idle (vocabulary [climb] static_dictionary) 10 [ascii "7", ascii "climb"] v :=
    ⟨hv.vocabulary, hv.mode, hv.base, hv.reading.mono (Set.empty_subset _)⟩
  have hstanding : Standing [climb] v.scanned.scanned.mem := fun x hx =>
    (hv.standing x hx).kept (scanned_keeps.trans scanned_keeps) fun k hk hmem => by
      have := parse_cells_bounds hk
      have := (hv.standing x hx).low
      rw [bss_end_toNat] at this
      omega
  -- what a round changes is the number
  have hendless : Endless (start + climb.1.token) climb.2 ⟨[7], [], v.scanned.scanned.mem, v.io⟩ := by
    refine .loop (Structured.again_diverges (C := counts _)
      (I := fun s : Local => ∃ x, s = ⟨[x], [], v.scanned.scanned.mem, v.io⟩) ?_ ⟨7, rfl⟩)
    rintro s ⟨x, rfl⟩
    exact ⟨_, .word rfl (.word ⟨plus_does.computes (by decide), hstanding climb (by decide)⟩ .done), _, rfl⟩
  have hlookup : lookup (vocabulary [climb] static_dictionary) (ascii "climb") = some climb.1 := by
    decide +kernel
  have hnumber : recognised 10 (ascii "7") = some 7 := by decide +kernel
  have hword : recognised 10 (ascii "climb") = none := by decide +kernel
  obtain ⟨-, hnever⟩ := htext (.number hnumber (.here hword hlookup
    (hwords climb (by decide) ⟨[7], [], v.scanned.scanned.mem, v.io⟩ hstanding hendless).1))
  rintro ⟨w, st, hreturns⟩
  exact hnever w st hreturns

end Programs

end Allwinner.Scp
