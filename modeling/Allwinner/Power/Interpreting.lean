import Allwinner.Power.Commands
import Allwinner.Power.Services

/-!
# Requests in front of the interpreter

The firmware waits in base 16, with the driver's words in its vocabulary. Others may write to memory
that is not guarded. A command is interpreted word by word and does what it says.
-/

namespace Allwinner.Power

open Library Memory
open Scp
open Library.Structured (Prog Calls runs runs_base runs_call)
open Library.RegisterFile (Registers Write)

section Words

variable [Board] [Wired] {bus : Bus} {E : Emitter} {defs : List Definition} {ds : List Dentry}
  {u v w : Store} {R R' : Registers 8} {st st' : List Cell}

/-- What the interpreter rests on. -/
def interpreter (ds : List Dentry) : Set Nat :=
  {k | k ∈ Label.current.room ∨ k ∈ Label.cp.room ∨ k ∈ Label.eval_xt.room ∨ ∃ d ∈ ds, k ∈ d.cells}

omit [Board] [Wired] in
theorem interpreter_bounds {m : Memory 32} {k : Nat} (h : Vocabulary m ds) (hk : k ∈ interpreter ds) :
    68084 ≤ k ∧ k < 68088 ∨ 68116 ≤ k ∧ k < 68120 ∨ 69788 ≤ k ∧ k < 69792 ∨
      0x10cb8 ≤ k ∧ (k < 0x1108c ∨ 74108 ≤ k) := by
  obtain hk | hk | hk | ⟨d, hd, hk⟩ := hk
  · exact .inr (.inr (.inl (current_room_bounds hk)))
  · exact .inl (cp_room_bounds hk)
  · exact .inr (.inl (eval_xt_room_bounds hk))
  · exact .inr (.inr (.inr (((h.placed d hd).bounds hk).imp_right (Or.imp_right And.left))))

/-- Memory that others leave alone. -/
def guarded (E : Emitter) (bus : Bus) (defs : List Definition) (ds : List Dentry) : Set Nat :=
  interpreter ds ∪ Label.base.room ∪ E.footprint ∪ bus.cells ∪ code_cells defs

/-- What a request writes besides the parse variables. -/
def written (E : Emitter) : Set Nat := formatting ∪ E.footprint

/-- Parsing, printing and the interpreter do not get into each other's way. -/
structure Installed (E : Emitter) (bus : Bus) (defs : List Definition) (ds : List Dentry) : Prop
    extends Separate E bus defs where
  parse : ∀ k ∈ parse_cells, k ∉ E.footprint ∪ bus.cells
  interpreter : ∀ k ∈ E.footprint, k ∉ interpreter ds ∪ Label.base.room ∪ parse_cells

/-- The interpreter in base 16. -/
structure Waiting (ds : List Dentry) (u : Store) : Prop where
  vocabulary : Vocabulary u.mem ds
  mode : mode u = Label.interpret_one_word.offset.setWidth 32
  base : (load32 u.mem Label.base.storage).toNat = 16

omit [Board] [Wired] in
theorem Waiting.kept {W : Set Nat} (h : Waiting ds u) (hkeeps : Keeps W u.mem v.mem)
    (hW : ∀ k ∈ W, k ∉ interpreter ds)
    (hbase : load32 v.mem Label.base.storage = load32 u.mem Label.base.storage) : Waiting ds v := by
  have hcp : cp v.mem = cp u.mem := Label.kept hkeeps (by decide) fun k hk hmem => hW k hk (.inr (.inl hmem))
  refine ⟨h.vocabulary.kept hkeeps (fun k hk => ⟨fun hmem => hW k hk (.inl hmem), fun d hd hmem =>
    hW k hk (.inr (.inr (.inr ⟨d, hd, hmem⟩)))⟩) (by rw [hcp]), ?_, by rw [hbase]; exact h.base⟩
  exact (Label.kept hkeeps (by decide) fun k hk hmem => hW k hk (.inr (.inr (.inl hmem)))).trans h.mode

/-- The firmware in front of a request. -/
structure Awaiting (E : Emitter) (bus : Bus) (defs : List Definition) (ds : List Dentry)
    (R : Registers 8) (u : Store) : Prop where
  serving : Serving E bus defs R u
  waiting : Waiting ds u

/-- Others may write elsewhere, and talk to other devices. -/
theorem Awaiting.disturbed {W : Set Nat} (h : Awaiting E bus defs ds R u) (hkeeps : Keeps W u.mem v.mem)
    (hW : ∀ k ∈ W, k ∉ guarded E bus defs ds) (hsame : controller v.io = controller u.io) :
    Awaiting E bus defs ds R v := by
  have hguarded {k : Nat} (hk : k ∈ W) : ¬ ((((k ∈ interpreter ds ∨ k ∈ Label.base.room) ∨ k ∈ E.footprint) ∨
      k ∈ bus.cells) ∨ k ∈ code_cells defs) := hW k hk
  refine ⟨⟨⟨?_, h.serving.calm.application.kept hkeeps fun k hk hmem => hguarded hk (.inl (.inr hmem)), ?_⟩,
    h.serving.idle.same hsame⟩, h.waiting.kept hkeeps
    (fun k hk hmem => hguarded hk (.inl (.inl (.inl (.inl hmem)))))
    (Label.kept hkeeps (by decide) fun k hk hmem => hguarded hk (.inl (.inl (.inl (.inr hmem)))))⟩
  · exact fun x hx => (h.serving.calm.standing x hx).kept hkeeps fun k hk hmem => hguarded hk (.inr ⟨x, hx, hmem⟩)
  · exact E.frame h.serving.calm.emitter (hkeeps.mono fun k hk hmem => hguarded hk (.inl (.inl (.inr hmem))))

theorem Awaiting.parsed (h : Awaiting E bus defs ds R u) (hI : Installed E bus defs ds)
    (hkeeps : Keeps parse_cells u.mem v.mem) (hsame : controller v.io = controller u.io) :
    Awaiting E bus defs ds R v := by
  refine h.disturbed hkeeps (fun k hk hmem => ?_) hsame
  have hbounds := parse_cells_bounds hk
  obtain (((hmem | hmem) | hmem) | hmem) | hmem := hmem
  · have := interpreter_bounds h.waiting.vocabulary hmem
    omega
  · have := base_room_bounds hmem
    omega
  · exact hI.parse k hk (.inl hmem)
  · exact hI.parse k hk (.inr hmem)
  · have := code_cells_low h.serving.calm.standing hmem
    omega

/-- The registers may change by what the controller is told. -/
theorem Awaiting.talked {io : Io} (h : Awaiting E bus defs ds R u) (hidle : Attached io R') :
    Awaiting E bus defs ds R' ⟨u.mem, io⟩ :=
  ⟨h.serving.talked hidle, h.waiting.kept (W := ∅) .refl (fun k hk => absurd hk (Set.notMem_empty k)) rfl⟩

variable [Sram]

end Words

end Allwinner.Power
