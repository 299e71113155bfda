import Allwinner.Library.RegisterFile
import Allwinner.Power.Program

/-!
# Requests of the power driver

What the words of the driver do in a session of the firmware. They talk to the power-management IC
with the words of the application.
-/

namespace Allwinner.Power

open Library Memory
open Scp
open Library.Structured (Prog Calls runs runs_base runs_call)
open Library.RegisterFile (Registers Write writes_append write_whole)

section Words

variable [Board]

-- ---------------------------------------------------------------------------
-- The program in a session
-- ---------------------------------------------------------------------------

/-- The firmware in base 16, with the driver's definitions in a buffer. Memory up to `e` may be used. -/
structure Session (ds : List Dentry) (bus : Bus) (a n : Cell) (e : Nat) (u : Store) : Prop where
  vocabulary : Vocabulary u.mem ds
  controls : Controls ds
  firmware : Firmware ds bus
  mode : mode u = Label.interpret_one_word.offset.setWidth 32
  base : (load32 u.mem Label.base.storage).toNat = 16
  fits : (cp u.mem).toNat + 347 ≤ e
  even : e % 2 = 0
  high : e ≤ sram_hi
  readable : Readable a n.toNat
  buffer : Apart (parse_cells ∪ defining (cp u.mem) (e - (cp u.mem).toNat)) a n.toNat
  text : bytes u.mem a n.toNat = definitions_text

variable {ds : List Dentry} {bus : Bus} {a n : Cell} {e : Nat} {u : Store}

variable {defs : List Definition} {m m' : Memory 32} {W : Set Nat} {n : Nat}

/-- `n` interrupt status registers are set to 0xff. -/
def irq_writes (n : Nat) : List (Write 8) := (List.range n).map fun i => (⟨0x48 + i, 0, 8⟩, 0xff)

omit [Board] in
theorem irq_writes_succ (R : Registers 8) (n : Nat) :
    R.writes (irq_writes (n + 1)) = Function.update (R.writes (irq_writes n)) (0x48 + n) 0xff := by
  have hwrites : irq_writes (n + 1) = irq_writes n ++ [(⟨0x48 + n, 0, 8⟩, 0xff)] := by
    rw [irq_writes, List.range_succ, List.map_append]
    rfl
  rw [hwrites, writes_append]
  exact write_whole _ _ _

omit [Board] in
theorem irq_register (hn : n < 0xb8) : (0x48 + BitVec.ofNat 32 n : Cell).toNat = 0x48 + n := by
  rw [BitVec.toNat_add, BitVec.toNat_ofNat, show (0x48 : Cell).toNat = 0x48 from rfl]
  omega

variable [Sram] [Wired] {bus : Bus} {defs : List Definition} {m : Memory 32} {io : Io} {R : Registers 8}

/-- A round of the loop sets one register, whatever is on the return stack. -/
theorem round_means (hA : Application bus m) (hs : Standing defs m) (hn : n < 0xb8)
    (h : Attached io (R.writes (irq_writes n))) :
    ∃ io', io'.sent = io.sent ∧ Attached io' (R.writes (irq_writes (n + 1))) ∧
      ∀ st rs, ProgramMeans defs (line [.xt Label.dup.offset, .lit 0xff, .xt Label.swap.offset, .xt bus.store, .lit 1,
        .xt Label.plus.offset]) ⟨(0x48 + BitVec.ofNat 32 n) :: st, rs, m, io⟩
        ⟨(0x48 + BitVec.ofNat 32 (n + 1)) :: st, rs, m, io'⟩ := by
  have hnext : (0x48 + BitVec.ofNat 32 (n + 1) : Cell) = 0x48 + BitVec.ofNat 32 n + 1 := by
    rw [BitVec.ofNat_add, BitVec.add_assoc]
    rfl
  have hr := irq_register hn
  obtain ⟨io', hstore, hsent, hidle⟩ := pmic_store_drives hA h (a := 0x48 + BitVec.ofNat 32 n) (by omega) 0xff
  rw [hr, show ((0xff : Cell).setWidth 8 : BitVec 8) = 0xff by decide, ← irq_writes_succ] at hidle
  refine ⟨io', hsent, hidle, fun st rs => ?_⟩
  have hdup : Does .dup m [0x48 + BitVec.ofNat 32 n] [0x48 + BitVec.ofNat 32 n, 0x48 + BitVec.ofNat 32 n] m :=
    fun _ _ _ _ => ⟨_, rfl, .refl⟩
  have hswap : Does .swap m [0xff, 0x48 + BitVec.ofNat 32 n] [0x48 + BitVec.ofNat 32 n, 0xff] m :=
    fun _ _ _ _ => ⟨_, rfl, .refl⟩
  rw [hnext]
  refine .word (runs_base ⟨hdup.computes (by decide), hs⟩) (.word (runs_base rfl)
    (.word (runs_base ⟨hswap.computes (by decide), hs⟩) (.word (runs_base ⟨hstore _ rs, hs⟩)
    (.word (runs_base rfl) (.word (runs_base ⟨?_, hs⟩) .done)))))
  exact plus_does.computes (by decide)

/-- The rounds one after the other. -/
theorem rounds_means (hA : Application bus m) (hs : Standing defs m) (h : Attached io R) (hn : n ≤ 0xb8) :
    ∃ f : Nat → Io, f 0 = io ∧ (f n).sent = io.sent ∧ Attached (f n) (R.writes (irq_writes n)) ∧
      ∀ i < n, ∀ st rs, ProgramMeans defs (line [.xt Label.dup.offset, .lit 0xff, .xt Label.swap.offset,
        .xt bus.store, .lit 1, .xt Label.plus.offset]) ⟨(0x48 + BitVec.ofNat 32 i) :: st, rs, m, f i⟩
        ⟨(0x48 + BitVec.ofNat 32 (i + 1)) :: st, rs, m, f (i + 1)⟩ := by
  induction n with
  | zero => exact ⟨fun _ => io, rfl, rfl, h, fun i hi => absurd hi (Nat.not_lt_zero i)⟩
  | succ n ih =>
    obtain ⟨f, hzero, hsent, hidle, hrounds⟩ := ih (by omega)
    obtain ⟨io', hsent', hidle', hround⟩ := round_means hA hs (by omega) hidle
    have hold {i : Nat} (hi : i ≤ n) : Function.update f (n + 1) io' i = f i :=
      Function.update_of_ne (by omega) _ _
    refine ⟨Function.update f (n + 1) io', (hold (Nat.zero_le n)).trans hzero, ?_, ?_, fun i hi st rs => ?_⟩
    · rw [Function.update_self]
      exact hsent'.trans hsent
    · rw [Function.update_self]
      exact hidle'
    · rw [hold (by omega)]
      obtain hlt | rfl := Nat.lt_succ_iff_lt_or_eq.mp hi
      · rw [hold (by omega)]
        exact hrounds i hlt st rs
      · rw [Function.update_self]
        exact hround st rs

theorem clear_pmic_irqs_means (hA : Application bus m) (hs : Standing defs m) (h : Attached io R) :
    ∃ io', io'.sent = io.sent ∧ Attached io' (R.writes (irq_writes 5)) ∧
      ∀ st rs, ProgramMeans defs (clear_pmic_irqs_body bus.store) ⟨st, rs, m, io⟩ ⟨st, rs, m, io'⟩ := by
  obtain ⟨f, hzero, hsent, hidle, hrounds⟩ := rounds_means (n := 5) hA hs h (by decide)
  have hdrop : Does .drop m [0x48 + BitVec.ofNat 32 5] [] m := fun _ _ _ _ => ⟨_, rfl, .refl⟩
  refine ⟨f 5, hsent, hidle, fun st rs => .word (runs_base rfl) (.word (runs_base rfl) (.forNext (n := 4)
    (t := ⟨0x48 :: st, rs, m, io⟩) ⟨4, 0x48 :: st, rfl, rfl, rfl⟩
    (fun i => ⟨(0x48 + BitVec.ofNat 32 i) :: st, rs, m, f i⟩) (by rw [hzero]; rfl)
    (fun i hi => hrounds i (by omega) st _) (.word (runs_base ⟨?_, hs⟩) .done)))⟩
  exact hdrop.computes (by decide)

-- ---------------------------------------------------------------------------
-- `.decimal`
-- ---------------------------------------------------------------------------

/-- The code of the program. -/
def code_cells (defs : List Definition) : Set Nat :=
  {k | ∃ x ∈ defs, (start + x.1.token).toNat ≤ k ∧
    k < (start + x.1.token).toNat + 2 * (definition_code (start + x.1.token) x.2).length}

omit [Board] [Sram] [Wired] in
theorem code_cells_low (h : Standing defs m) {k : Nat} (hk : k ∈ code_cells defs) : 74108 ≤ k := by
  obtain ⟨x, hx, hlo, -⟩ := hk
  have hlow := (h x hx).low
  rw [bss_end_toNat] at hlow
  exact hlow.trans hlo

/-- The memory of the emitter, number output and the words is apart, and what is printed tells no device
anything. -/
structure Separate (E : Emitter) (bus : Bus) (defs : List Definition) : Prop where
  emitter : ∀ k ∈ formatting, k ∉ E.footprint
  application : ∀ k ∈ formatting ∪ E.footprint, k ∉ bus.cells
  code : ∀ k ∈ E.footprint, k ∉ code_cells defs
  quiet : ∀ u cs, (E.say u cs).io.transfers = u.io.transfers

/-- What the words of the program rest on. -/
structure Calm (E : Emitter) (bus : Bus) (defs : List Definition) (u : Store) : Prop where
  standing : Standing defs u.mem
  application : Application bus u.mem
  emitter : E.Ready u

variable {E : Emitter} {u v : Store} {cs : List Cell}

omit [Board] in
theorem base_room_bounds (hk : k ∈ Label.base.room) : 68092 ≤ k ∧ k < 68096 := by
  obtain ⟨hlo, hhi⟩ := hk
  rw [base_storage] at hlo hhi
  exact ⟨hlo, hhi⟩

omit [Board] in
theorem formatting_bounds (hk : k ∈ formatting) : 68092 ≤ k ∧ k < 68096 ∨ 68100 ≤ k ∧ k < 68104 ∨
    73852 ≤ k ∧ k < 73980 := by
  obtain (⟨hlo, hhi⟩ | ⟨hlo, hhi⟩) | hk := hk
  · rw [hld_toNat] at hlo hhi
    omega
  · rw [pad_lo_toNat] at hlo
    rw [pad_hi_toNat] at hhi
    omega
  · exact .inl (base_room_bounds hk)

omit [Sram] [Wired] in
/-- Printing leaves the words alone. -/
theorem Calm.printed (h : Calm E bus defs u) (hE : Separate E bus defs) (hprints : Prints E formatting u cs v) :
    Calm E bus defs v := by
  obtain ⟨hready, hkeeps⟩ := hprints.ready hE.emitter h.emitter
  refine ⟨fun x hx => (h.standing x hx).kept hkeeps fun k hk hmem => ?_,
    h.application.kept hkeeps hE.application, hready⟩
  obtain hk | hk := hk
  · have := formatting_bounds hk
    have := code_cells_low h.standing ⟨x, hx, hmem⟩
    omega
  · exact hE.code k hk ⟨x, hx, hmem⟩

omit [Wired] in
/-- `.decimal` prints a number in base 10, and sets the base back. -/
theorem decimal_means (h : Calm E bus defs u) (hE : Separate E bus defs) (ps : List (Atom × Body)) (x : Cell) :
    ∃ v, (∀ st rs, Calls (counts (Standing defs)) (called defs) ps decimal_body ⟨x :: st, rs, u.mem, u.io⟩
        ⟨st, rs, v.mem, v.io⟩) ∧
      Prints E formatting u (0x20 :: chars (signed_numeral 10 x)) v ∧ v.io.transfers = u.io.transfers ∧
      load32 v.mem Label.base.storage = load32 u.mem Label.base.storage := by
  have hbase : Label.base.Var := .of_isVar rfl
  have hset (m : Memory 32) (v : Cell) : Keeps formatting m (store32 m Label.base.storage v) :=
    (store32_keeps v (by decide)).mono Set.subset_union_right
  have hscratch : ∀ k ∈ scratch, k ∉ E.footprint := fun k hk => hE.emitter k (.inl hk)
  -- the base is ten, and the number is printed
  have hten : Prints E formatting u [] ⟨store32 u.mem Label.base.storage 10, u.io⟩ := .quiet (hset _ _) rfl
  obtain ⟨m, hkeeps, hdot⟩ := dot_acts E hscratch (b := 10) (by omega)
    (by rw [load32_store32 _ (by decide)]; rfl) x (h.printed hE hten).emitter
  rw [dot_text, if_pos rfl] at hdot
  have hprinted := (hten.trans (.quiet (v := ⟨m, u.io⟩) (hkeeps.mono Set.subset_union_left) rfl)).trans
    (.say E ⟨m, u.io⟩ (0x20 :: chars (signed_numeral 10 x)))
  have hback := hprinted.trans (.quiet (v := ⟨store32 _ Label.base.storage (load32 u.mem Label.base.storage), _⟩) (hset _ _) rfl)
  rw [List.append_nil] at hback
  refine ⟨_, fun st rs => ?_, hback, hE.quiet _ _, load32_store32 _ (by decide)⟩
  have hs₁ := (h.printed hE hten).standing
  have hs₂ := (h.printed hE hprinted).standing
  have hs₃ := (h.printed hE hback).standing
  have hswap : Does .swap (store32 u.mem Label.base.storage 10) [load32 u.mem Label.base.storage, x]
    [x, load32 u.mem Label.base.storage] (store32 u.mem Label.base.storage 10) := fun _ _ _ _ => ⟨_, rfl, .refl⟩
  let b := load32 u.mem Label.base.storage
  let m₁ := store32 u.mem Label.base.storage 10
  let w := E.say ⟨m, u.io⟩ (0x20 :: chars (signed_numeral 10 x))
  let m₃ := store32 w.mem Label.base.storage b
  refine .word (t := ⟨Label.base.storage :: x :: st, rs, u.mem, u.io⟩) (runs_base ⟨?_, h.standing⟩)
    (.word (t := ⟨b :: x :: st, rs, u.mem, u.io⟩) (runs_base ⟨?_, h.standing⟩)
    (.word (t := ⟨b :: x :: st, rs, m₁, u.io⟩) (runs_base ⟨?_, hs₁⟩)
    (.word (t := ⟨x :: b :: st, rs, m₁, u.io⟩) (runs_base ⟨?_, hs₁⟩)
    (.word (t := ⟨b :: st, rs, w.mem, w.io⟩) (runs_base ⟨?_, hs₂⟩)
    (.word (t := ⟨Label.base.storage :: b :: st, rs, w.mem, w.io⟩) (runs_base ⟨?_, hs₂⟩)
    (.word (t := ⟨st, rs, m₃, w.io⟩) (runs_base ⟨?_, hs₃⟩) .done))))))
  · exact hbase.does.computes (by decide)
  · exact (at_does (access_of_store hbase.ram)).computes (by decide)
  · exact decimal_does.computes (by decide)
  · exact hswap.computes (by decide)
  · exact hdot.computes (by decide) _ rs
  · exact hbase.does.computes (by decide)
  · exact (store_does hbase.ram).computes (by decide)

end Words

end Allwinner.Power
