import Allwinner.Scp.Forth

/-!
# What the words of the firmware do to the stacks

`Does l m pre post m'` is the stack comment of a word: executed with `pre` on top
of the data stack, it comes back to its caller with `post` there instead, and
memory `m` has become `m'`. The rest of both stacks and the devices are as before.
-/

namespace Allwinner.Scp

open Library Memory
open Forth hiding ip ds rs mem io jump one two

-- ---------------------------------------------------------------------------
-- Memory that the AR100 reads and writes
-- ---------------------------------------------------------------------------

/-- The firmware, its dictionary and the mailbox buffers lie in RAM. -/
def sram_hi : Nat := 0x14000

/-- `n` bytes of RAM from `a` on, in front of the stacks or behind them. -/
def Span (a : Cell) (n : Nat) : Prop :=
  start.toNat ≤ a.toNat ∧ a.toNat + n ≤ sram_hi ∧ (a.toNat + n ≤ rstack_lo.toNat ∨ dstack_hi.toNat ≤ a.toNat)

/-- An aligned cell, half word or byte of RAM. -/
def Spot (n : Nat) (a : Cell) : Prop := a.toNat % n = 0 ∧ Span a n

instance (a : Cell) (n : Nat) : Decidable (Span a n) := inferInstanceAs (Decidable (_ ∧ _))
instance (n : Nat) (a : Cell) : Decidable (Spot n a) := inferInstanceAs (Decidable (_ ∧ _))

theorem Span.add (h : Span a n) (hk : k < n) : (a + BitVec.ofNat 32 k).toNat = a.toNat + k := by
  have := h.2.1
  unfold sram_hi at this
  exact toNat_add_ofNat (by omega)

theorem pos_of_ne_zero {c : Cell} (hc : c ≠ 0) : 0 < c.toNat :=
  Nat.pos_of_ne_zero fun h => hc (BitVec.eq_of_toNat_eq h)

theorem toNat_pred {c : Cell} (hc : c ≠ 0) : (c - 1).toNat = c.toNat - 1 := by
  have hpos := pos_of_ne_zero hc
  have hlt := c.isLt
  rw [BitVec.toNat_sub]
  simp; omega

theorem setWidth_beq (x y : Byte) :
    (x.setWidth 32 == y.setWidth 32) = (x == y) := by
  rw [Bool.eq_iff_iff, beq_iff_eq, beq_iff_eq]
  constructor
  · intro h
    have := congrArg BitVec.toNat h
    apply BitVec.eq_of_toNat_eq
    have hx := x.isLt
    have hy := y.isLt
    simp only [BitVec.toNat_setWidth] at this
    omega
  · rintro rfl
    rfl

-- ---------------------------------------------------------------------------
-- Flags
-- ---------------------------------------------------------------------------

theorem flag_eq_zero {b : Bool} : flag b = 0 ↔ b = false := by cases b <;> decide

theorem flag_ne_zero {b : Bool} : flag b ≠ 0 ↔ b = true := by cases b <;> decide

@[simp] theorem flag_xor (b : Bool) : flag b ^^^ -1 = flag !b := by cases b <;> decide

@[simp] theorem flag_and (b c : Bool) : flag b &&& flag c = flag (b && c) := by
  cases b <;> cases c <;> decide

@[simp] theorem flag_or (b c : Bool) : flag b ||| flag c = flag (b || c) := by
  cases b <;> cases c <;> decide

theorem xor_neg_one (a : Cell) : a ^^^ -1 = ~~~a := by
  rw [show (-1 : Cell) = BitVec.allOnes 32 from rfl, BitVec.xor_allOnes]

def Label.room (l : Label) : Set Nat := Set.Ico l.storage.toNat (l.storage.toNat + 4)

theorem Label.kept {l : Label} (h : Keeps W m m') (hl : l.storage.toNat + 4 ≤ 2 ^ 32)
    (hW : ∀ n ∈ W, n ∉ l.room) : load32 m' l.storage = load32 m l.storage :=
  h.load32 hl fun n hlo hhi hn => hW n hn ⟨hlo, hhi⟩

class Sram [Board] : Prop where
  ram : ∀ {a : Cell}, Span a 1 → Board.ram a = true

/-- A board that answers every address with RAM. -/
abbrev Board.flat : Board where
  ram _ := true
  device _ := false

theorem Sram.flat : @Sram .flat := @Sram.mk .flat fun _ => rfl

variable [Board]

/-- RAM that the machine sees. -/
def Visible (a : Cell) : Prop := Board.ram a = true ∧ stacked a = false

/-- The `n` bytes from `a` on are RAM. -/
def Readable (a : Cell) (n : Nat) : Prop := ∀ i < n, Visible (a + BitVec.ofNat 32 i)

/-- Nothing of the firmware among the `n` bytes from `a` on is overwritten but its variables. -/
def Writable (a : Cell) (n : Nat) : Prop :=
  ∀ i < n, Visible (a + BitVec.ofNat 32 i) ∧ fixed (a + BitVec.ofNat 32 i) = false

theorem Readable.mono (h : Readable a n) (hk : k ≤ n) : Readable a k :=
  fun i hi => h i (Nat.lt_of_lt_of_le hi hk)

theorem Readable.head (h : Readable a n) (hn : 0 < n) : Visible a := by
  simpa using h 0 hn

theorem Readable.drop (h : Readable a n) (k : Nat) : Readable (a + BitVec.ofNat 32 k) (n - k) := by
  intro i hi
  rw [BitVec.add_assoc, ← BitVec.ofNat_add]
  exact h (k + i) (by omega)

theorem Readable.tail (h : Readable a (n + 1)) : Readable (a + 1) n := h.drop 1

theorem Writable.readable (h : Writable a n) : Readable a n := fun i hi => (h i hi).1

theorem Writable.mono (h : Writable a n) (hk : k ≤ n) : Writable a k :=
  fun i hi => h i (Nat.lt_of_lt_of_le hi hk)

theorem Writable.head (h : Writable a n) (hn : 0 < n) : Visible a ∧ fixed a = false := by
  simpa using h 0 hn

theorem Writable.tail (h : Writable a (n + 1)) : Writable (a + 1) n := by
  intro i hi
  rw [show (1 : Cell) = BitVec.ofNat 32 1 from rfl, BitVec.add_assoc, ← BitVec.ofNat_add]
  exact h (1 + i) (by omega)

omit [Board] in
theorem stacked_eq_false (h : a.toNat < rstack_lo.toNat ∨ dstack_hi.toNat ≤ a.toNat) : stacked a = false := by
  simp only [stacked, Bool.and_eq_false_iff, decide_eq_false_iff_not]
  omega

omit [Board] in
theorem fixed_eq_false (h : rstack_lo.toNat ≤ a.toNat) : fixed a = false := by
  rw [fixed, decide_eq_false (Nat.not_lt.mpr h), Bool.false_and]

theorem Span.readable [Sram] (h : Span a n) : Readable a n := by
  intro i hi
  obtain ⟨hlo, hhi, hstacks⟩ := h
  have hadd := Span.add ⟨hlo, hhi, hstacks⟩ hi
  refine ⟨Sram.ram ⟨?_, ?_, ?_⟩, stacked_eq_false ?_⟩ <;> rw [hadd] <;> omega

omit [Board] in
/-- Behind the stacks. -/
theorem Span.behind (hlow : 73852 ≤ a.toNat) (hhigh : a.toNat + n ≤ sram_hi) : Span a n :=
  ⟨(show start.toNat ≤ 73852 by decide).trans hlow, hhigh,
    .inr ((show dstack_hi.toNat ≤ 73852 by decide).trans hlow)⟩

theorem Writable.behind [Sram] (hlow : 73852 ≤ a.toNat) (hhigh : a.toNat + n ≤ sram_hi) : Writable a n := by
  have hspan := Span.behind hlow hhigh
  refine fun i hi => ⟨hspan.readable i hi, fixed_eq_false ?_⟩
  rw [hspan.add hi]
  exact (show rstack_lo.toNat ≤ 73852 by decide).trans (hlow.trans (Nat.le_add_right ..))

theorem access_byte (h : Visible a) : access 1 a = .ram := by
  simp [access, h.1, h.2]

theorem access_ram {n : Nat} (ha : a.toNat % n = 0) (hram : Visible a) (hn : n < 2 ^ 32) :
    access (BitVec.ofNat 32 n) a = .ram := by
  have hmod : a % BitVec.ofNat 32 n = 0 := by
    apply BitVec.eq_of_toNat_eq
    rw [BitVec.toNat_umod, BitVec.toNat_ofNat, Nat.mod_eq_of_lt hn]
    exact ha
  simp [access, hmod, hram.1, hram.2]

theorem store_access_ram (h : access n a = .ram) (ha : fixed a = false) : store_access n a = .ram := by
  simp [store_access, h, ha]

theorem access_of_store (h : store_access n a = .ram) : access n a = .ram := by
  unfold store_access at h
  split at h
  · assumption
  · exact h

theorem Spot.access [Sram] {n : Nat} (h : Spot n a) (hn : 0 < n) (hlt : n < 2 ^ 32) :
    access (BitVec.ofNat 32 n) a = .ram :=
  access_ram h.1 (by simpa using h.2.readable 0 hn) hlt

theorem Spot.cell [Sram] (h : Spot 4 a) : Scp.access 4 a = .ram := h.access (by decide) (by decide)

theorem Spot.half [Sram] (h : Spot 2 a) : Scp.access 2 a = .ram := h.access (by decide) (by decide)

/-- Aligned, and behind the stacks. -/
theorem store_access_behind [Sram] {n : Nat} (ha : a.toNat % n = 0) (hn : 0 < n) (hlow : 73852 ≤ a.toNat)
    (hhigh : a.toNat + n ≤ sram_hi) : store_access (BitVec.ofNat 32 n) a = .ram := by
  unfold sram_hi at hhigh
  exact store_access_ram (Spot.access ⟨ha, .behind hlow hhigh⟩ hn (by omega))
    (fixed_eq_false ((show rstack_lo.toNat ≤ 73852 by decide).trans hlow))

-- ---------------------------------------------------------------------------
-- Stack comments
-- ---------------------------------------------------------------------------

def Does (l : Label) (m : Memory 32) (pre post : List Cell) (m' : Memory 32) : Prop :=
  ∀ ip ds rs io, ∃ t, call false l ⟨ip, pre ++ ds, rs, m, io, none⟩ = .on t ∧
    Leads t ⟨ip, post ++ ds, rs, m', io, none⟩

theorem Does.of_leads (hl : l.prim? = none)
    (h : ∀ ip ds rs io, Leads ⟨.rom l 0, pre ++ ds, ip :: rs, m, io, none⟩
      ⟨ip, post ++ ds, rs, m', io, none⟩) : Does l m pre post m' := by
  intro ip ds rs io
  exact ⟨_, by simp [call, hl, dolist], h ip ds rs io⟩

/-- A list word from its first token to its caller. -/
theorem Does.leads (h : Does l m pre post m') (hl : l.prim? = none) (ip : Ip) (ds : List Cell)
    (rs : List Ip) (io : Io) : Leads ⟨.rom l 0, pre ++ ds, ip :: rs, m, io, none⟩
      ⟨ip, post ++ ds, rs, m', io, none⟩ := by
  obtain ⟨t, ht, hleads⟩ := h ip ds rs io
  simp only [call, hl, dolist, Bool.false_and, Bool.false_eq_true, if_false, Turn.on.injEq] at ht
  exact ht ▸ hleads

/-- No token of `main` stands at 1000. -/
theorem Does.unique (h : Does l m pre post m') (h' : Does l m pre post' m'') :
    post = post' ∧ m' = m'' := by
  have hstuck : ∀ ds m (v : Forth), ¬ Steps ⟨.rom .main 1000, ds, [], m, ⟨[], [], []⟩, none⟩ v := by
    intro ds m v hstep
    cases hstep
  obtain ⟨t, ht, hleads⟩ := h (.rom .main 1000) [] [] ⟨[], [], []⟩
  obtain ⟨t', ht', hleads'⟩ := h' (.rom .main 1000) [] [] ⟨[], [], []⟩
  obtain rfl : t = t' := Turn.on.inj (ht.symm.trans ht')
  have hend := hleads.unique hleads' (hstuck _ _) (hstuck _ _)
  simp only [List.append_nil, Forth.mk.injEq] at hend
  exact ⟨hend.2.1, hend.2.2.2.1⟩

/-- `Does`, and on stacks of the size the firmware has the word comes back the same way or one of
them overflows. -/
structure Delivers (l : Label) (m : Memory 32) (pre post : List Cell) (m' : Memory 32) : Prop where
  does : Does l m pre post m'
  ends : ∀ ip ds rs io,
    Ends ⟨ip, pre ++ ds, rs, m, io, some l.addr⟩ ⟨ip, post ++ ds, rs, m', io, none⟩

theorem Does.delivers (h : Does l m pre post m') (hl : l ∈ Label.all.drop 8) : Delivers l m pre post m' := by
  refine ⟨h, fun ip ds rs io => ?_⟩
  obtain ⟨t, ht, hleads⟩ := h ip ds rs io
  refine Leads.ends (.head ?_ hleads)
  simpa only [Steps, act, enter, Label.ofAddr?_addr hl] using ht

/-- The word as a token of a list. -/
theorem Does.at (h : Does l m pre post m') {w : Label} {k : Nat} (hk : w.list[k]? = some (.xt l)) :
    Leads ⟨.rom w k, pre ++ ds, rs, m, io, none⟩ ⟨.rom w (k + 1), post ++ ds, rs, m', io, none⟩ := by
  obtain ⟨t, ht, hleads⟩ := h (.rom w (k + 1)) ds rs io
  refine .head ?_ hleads
  simpa [Steps, act, hk, token] using ht

/-- The word through the execution token on the stack. -/
theorem Does.execute (h : Does l m pre post m') (hl : l ∈ Label.all.drop 8) {w : Label} {k : Nat}
    (hk : w.list[k]? = some (.xt .execute)) :
    Leads ⟨.rom w k, l.offset.setWidth 32 :: (pre ++ ds), rs, m, io, none⟩
      ⟨.rom w (k + 1), post ++ ds, rs, m', io, none⟩ := by
  obtain ⟨t, ht, hleads⟩ := h (.rom w (k + 1)) ds rs io
  refine .head (b := ⟨.rom w (k + 1), pre ++ ds, rs, m, io, some l.addr⟩) ?_ (.head ?_ hleads)
  · simp [Steps, act, hk, token, call, Label.prim?, Prim.turn, Forth.one, Label.addr]
  · simpa [Steps, act, enter, Label.ofAddr?_addr hl] using ht

theorem Does.prim {p : Prim} (hl : l.prim? = some p)
    (h : ∀ ip ds rs io, p.turn false l.addr ⟨ip, pre ++ ds, rs, m, io, none⟩ =
      .on ⟨ip, post ++ ds, rs, m', io, none⟩) : Does l m pre post m' :=
  fun ip ds rs io => ⟨_, by rw [call, hl]; exact h ip ds rs io, .refl⟩

-- ---------------------------------------------------------------------------
-- Memory access
-- ---------------------------------------------------------------------------

theorem at_does (h : access 4 a = .ram) : Does .«at» m [a] [load32 m a] m :=
  .prim rfl fun _ _ _ _ => by
    simp only [Prim.turn, loading, Forth.one, List.cons_append, List.nil_append, h]

theorem cat_does (h : Visible a) : Does .cat m [a] [(m a).setWidth 32] m :=
  .prim rfl fun _ _ _ _ => by
    simp only [Prim.turn, loading, Forth.one, List.cons_append, List.nil_append, access_byte h]

theorem store_does (h : store_access 4 a = .ram) : Does .store m [a, v] [] (store32 m a v) :=
  .prim rfl fun _ _ _ _ => by
    simp only [Prim.turn, storing, Forth.two, List.cons_append, List.nil_append, h]

theorem cstore_does (h : Visible a ∧ fixed a = false) :
    Does .cstore m [a, v] [] (store8 m a (v.setWidth 8)) :=
  .prim rfl fun _ _ _ _ => by
    simp only [Prim.turn, storing, Forth.two, List.cons_append, List.nil_append,
      store_access_ram (access_byte h.1) h.2]

theorem xtastore_does (h : store_access 2 a = .ram) :
    Does .xtastore m [a, v] [] (store16 m a (v.setWidth 16)) :=
  .prim rfl fun _ _ _ _ => by
    simp only [Prim.turn, storing, Forth.two, List.cons_append, List.nil_append, store_half, h]

-- ---------------------------------------------------------------------------
-- Variables
-- ---------------------------------------------------------------------------

structure Label.Var (l : Label) : Prop where
  list : l.list = Label.VAR_XT
  prim : l.prim? = none
  ram : store_access 4 l.storage = .ram

theorem Label.Var.does {l : Label} (h : l.Var) : Does l m [] [l.storage] m := by
  refine .of_leads h.prim fun ip ds rs io => ?_
  have hret : (Ip.rom l 1).addr = l.addr + 4 := by
    simp only [Ip.addr, h.list, Label.VAR_XT]
    rw [BitVec.add_assoc]
    rfl
  calc
    Leads ⟨.rom l 0, ds, ip :: rs, m, io, none⟩
      ⟨.rom .dovar 0, ds, .rom l 1 :: ip :: rs, m, io, none⟩ := by
        refine .single ?_
        simp [Steps, act, h.list, Label.VAR_XT, token, call, Label.prim?, dolist]
    Leads _ ⟨.rom .dovar 1, (l.addr + 4) :: ds, ip :: rs, m, io, none⟩ := by
      rw [← hret]
      exact run_leads (n := 1) rfl
    Leads _ _ := run_leads (n := 7) rfl

theorem Label.Var.of_isVar [Sram] {l : Label} (h : l.isVar = Bool.true) : l.Var := by
  cases l <;> first
    | (cases h; done)
    | exact ⟨rfl, rfl, store_access_ram (Spot.cell (by decide)) (by decide)⟩

/-- `l at` as two tokens of a list. -/
theorem Label.Var.fetch {l w : Label} {k : Nat} (h : l.Var) (hk : w.list[k]? = some (.xt l))
    (hat : w.list[k + 1]? = some (.xt .«at»)) :
    Leads ⟨.rom w k, ds, rs, m, io, none⟩
      ⟨.rom w (k + 2), load32 m l.storage :: ds, rs, m, io, none⟩ :=
  (h.does.at hk).trans ((at_does (access_of_store h.ram)).at hat)

/-- `l store` as two tokens of a list. -/
theorem Label.Var.set {l w : Label} {k : Nat} (h : l.Var) (hk : w.list[k]? = some (.xt l))
    (hst : w.list[k + 1]? = some (.xt .store)) :
    Leads ⟨.rom w k, v :: ds, rs, m, io, none⟩
      ⟨.rom w (k + 2), ds, rs, store32 m l.storage v, io, none⟩ :=
  (h.does.at hk).trans ((store_does h.ram).at hst)

-- ---------------------------------------------------------------------------
-- Branches
-- ---------------------------------------------------------------------------

section Branches

variable {w : Label} {k i : Nat} {r : Ref} {f c : Cell} {ds : List Cell} {rs : List Ip}
  {io : Io} {m : Memory 32}

theorem qbranch_taken (hk : w.list[k]? = some (.qbranch r)) (hr : w.target k r = some i)
    (hf : f = 0) : Leads ⟨.rom w k, f :: ds, rs, m, io, none⟩ ⟨.rom w i, ds, rs, m, io, none⟩ := by
  refine .single ?_
  simp [Steps, act, hk, token, Forth.one, hf, goto, hr]

theorem qbranch_passed (hk : w.list[k]? = some (.qbranch r)) (hf : f ≠ 0) :
    Leads ⟨.rom w k, f :: ds, rs, m, io, none⟩ ⟨.rom w (k + 1), ds, rs, m, io, none⟩ := by
  refine .single ?_
  simp only [Steps, act, hk, token, Forth.one, if_neg hf]

theorem next_taken (hk : w.list[k]? = some (.next r)) (hr : w.target k r = some i)
    (hc : c ≠ 0) : Leads ⟨.rom w k, ds, .ram c :: rs, m, io, none⟩
      ⟨.rom w i, ds, .ram (c - 1) :: rs, m, io, none⟩ := by
  refine .single ?_
  simp only [Steps, act, hk, token, oner, Ip.addr, if_neg hc, goto, hr]

theorem next_passed (hk : w.list[k]? = some (.next r)) :
    Leads ⟨.rom w k, ds, .ram 0 :: rs, m, io, none⟩ ⟨.rom w (k + 1), ds, rs, m, io, none⟩ := by
  refine .single ?_
  simp [Steps, act, hk, token, oner, Ip.addr]

theorem qdup_ne (hk : w.list[k]? = some (.xt .qdup)) (hf : f ≠ 0) :
    Leads ⟨.rom w k, f :: ds, rs, m, io, none⟩ ⟨.rom w (k + 1), f :: f :: ds, rs, m, io, none⟩ := by
  refine .single ?_
  simp only [Steps, act, hk, token, call, Label.prim?, Prim.turn, Forth.one, if_neg hf]
  rfl

theorem qdup_zero (hk : w.list[k]? = some (.xt .qdup)) :
    Leads ⟨.rom w k, 0 :: ds, rs, m, io, none⟩ ⟨.rom w (k + 1), 0 :: ds, rs, m, io, none⟩ := by
  refine .single ?_
  simp [Steps, act, hk, token, call, Label.prim?, Prim.turn, Forth.one]

end Branches

-- ---------------------------------------------------------------------------
-- Arithmetic
-- ---------------------------------------------------------------------------

theorem inc_does : Does .inc m [a] [a + 1] m :=
  .of_leads rfl fun _ _ _ _ => run_leads (n := 8) rfl

theorem plus_does : Does .plus m [b, a] [a + b] m :=
  .of_leads rfl fun _ _ _ _ => run_leads (n := 3) rfl

theorem rot_does : Does .rot m [c, b, a] [a, c, b] m :=
  .of_leads rfl fun _ _ _ _ => run_leads (n := 5) rfl

theorem twodup_does : Does .twodup m [b, a] [b, a, b, a] m :=
  .of_leads rfl fun _ _ _ _ => run_leads (n := 3) rfl

theorem not_does : Does .not m [a] [~~~a] m := by
  rw [← xor_neg_one]
  exact .of_leads rfl fun _ _ _ _ => run_leads (n := 5) rfl

theorem sub_does : Does .sub m [b, a] [a - b] m := by
  rw [show a - b = a + ((b ^^^ -1) + 1) by
    rw [xor_neg_one, BitVec.sub_eq_add_neg, BitVec.neg_eq_not_add]; rfl]
  exact .of_leads rfl fun _ _ _ _ => run_leads (n := 22) rfl

end Allwinner.Scp
