import Allwinner.Library.Weakest
import Allwinner.Scp.Machine

namespace Allwinner.Scp

open Library Memory

def Push.Within : Push → Prop
  | .dstack a => CellWithin dstack_lo dstack_hi a
  | .rstack a => CellWithin rstack_lo rstack_hi a

instance : DecidablePred Push.Within
  | .dstack a => inferInstanceAs (Decidable (CellWithin dstack_lo dstack_hi a))
  | .rstack a => inferInstanceAs (Decidable (CellWithin rstack_lo rstack_hi a))

namespace Cpu

/-- Both stack positions are those of a cell inside of its area. -/
structure InBounds (s : Cpu) : Prop where
  r14_lt : s.r14.toNat < 4 * 64
  r15_lt : s.r15.toNat < 4 * 32
  r14_aligned : s.r14.toNat % 4 = 0
  r15_aligned : s.r15.toNat % 4 = 0

/-- Every push of the current step went into its own area. -/
def Contained (s : Cpu) : Prop := ∀ p ∈ s.pushed, p.Within

end Cpu

-- ---------------------------------------------------------------------------
-- What each primitive needs of the stacks
-- ---------------------------------------------------------------------------

/-- The items a primitive expects and the cells it pushes, by stack. -/
structure Usage where
  needs : Nat := 0
  pushes : Nat := 0
  rneeds : Nat := 0
  rpushes : Nat := 0

namespace Prim

def usage (s : Cpu) : Prim → Usage
  | dolist => { rpushes := 1 }
  | drop | qbranch | zless | rawdot | emit_uart | execute => { needs := 1 }
  | «at» | cat | xtaat => { needs := 1 }
  | dup => { needs := 1, pushes := 1 }
  | qdup => { needs := 1, pushes := if s.r11 = 0 then 0 else 1 }
  | swap | equal | ult | slt | umplus | and | or | xor | aligned => { needs := 2 }
  | store | cstore | xtastore | xta_aligned_store => { needs := 2 }
  | «over» => { needs := 2, pushes := 1 }
  | tor => { needs := 1, rpushes := 1 }
  | rat | rfrom => { rneeds := 1, pushes := 1 }
  | tworat => { rneeds := 2, pushes := 2 }
  | next | exit => { rneeds := 1 }
  | dolit | xtalit | depth => { pushes := 1 }
  | branch | reset => { }
  | ask_key => { pushes := if s.inputs.headD 0 &&& 1 = 0 then 1 else 2 }

end Prim

/-- The stack error a use of the stacks has to end in, if it does not fit. -/
def Usage.due (u : Usage) (s : Cpu) : Option Fault :=
  if 4 * 31 < s.r15.toNat + 4 * u.rpushes then some .rstack_overflow
  else if s.r15.toNat < 4 * u.rneeds then some .rstack_underflow
  else if s.r14.toNat < 4 * u.needs then some .dstack_underflow
  else if 4 * 63 < s.r14.toNat + 4 * u.pushes then some .dstack_overflow
  else none

/-- Faults that come from an access to memory, or from the word `reset`. -/
def Fault.External (f : Fault) : Prop := f = .unaligned_access ∨ f = .bus_access ∨ f = .reset

namespace Cpu

variable {s t : Cpu} {v : Cell} {f : Fault} {Q : Unit → Cpu → Prop} {E : Fault → Cpu → Prop}

-- ---------------------------------------------------------------------------
-- The stack operations keep the bounds
-- ---------------------------------------------------------------------------

@[simp] theorem pushed_storeD :
    (s.storeD v).pushed = s.pushed ++ [.dstack (dstack_lo + (s.r14 + CELL_BYTES))] := rfl
@[simp] theorem pushed_storeR :
    (s.storeR v).pushed = s.pushed ++ [.rstack (rstack_lo + (s.r15 + CELL_BYTES))] := rfl
@[simp] theorem pushed_loadD : s.loadD.pushed = s.pushed := rfl
@[simp] theorem pushed_dropR : s.dropR.pushed = s.pushed := rfl

theorem toNat_r14_loadD (h : 4 ≤ s.r14.toNat) : s.loadD.r14.toNat = s.r14.toNat - 4 := by
  simp only [loadD, CELL_BYTES]
  bv_omega

theorem toNat_r14_storeD (h : s.r14.toNat < 252) : (s.storeD v).r14.toNat = s.r14.toNat + 4 := by
  simp only [storeD, CELL_BYTES]
  bv_omega

theorem InBounds.storeD (h : s.InBounds) (hroom : s.r14.toNat < 252) : (s.storeD v).InBounds := by
  obtain ⟨h14, h15, a14, a15⟩ := h
  refine ⟨?_, h15, ?_, a15⟩ <;> simp only [Cpu.storeD, CELL_BYTES] <;> bv_omega

theorem InBounds.loadD (h : s.InBounds) (hitem : 4 ≤ s.r14.toNat) : s.loadD.InBounds := by
  obtain ⟨h14, h15, a14, a15⟩ := h
  refine ⟨?_, h15, ?_, a15⟩ <;> simp only [Cpu.loadD, CELL_BYTES] <;> bv_omega

theorem InBounds.storeR (h : s.InBounds) (hroom : s.r15.toNat < 124) : (s.storeR v).InBounds := by
  obtain ⟨h14, h15, a14, a15⟩ := h
  refine ⟨h14, ?_, a14, ?_⟩ <;> simp only [Cpu.storeR, CELL_BYTES] <;> bv_omega

theorem InBounds.dropR (h : s.InBounds) (hitem : 4 ≤ s.r15.toNat) : s.dropR.InBounds := by
  obtain ⟨h14, h15, a14, a15⟩ := h
  refine ⟨h14, ?_, a14, ?_⟩ <;> simp only [Cpu.dropR, CELL_BYTES] <;> bv_omega

theorem Contained.storeD (h : s.Contained) (hb : s.InBounds) (hroom : s.r14.toNat < 252) :
    (s.storeD v).Contained := by
  obtain ⟨-, -, a14, -⟩ := hb
  refine List.forall_mem_append.mpr ⟨h, List.forall_mem_singleton.mpr (cellWithin_offset.mpr ?_)⟩
  rw [CELL_BYTES]
  bv_omega

/-- A push to the return stack stays in its area exactly if there is room. -/
theorem contained_storeR (hb : s.InBounds) (h : s.Contained) :
    (s.storeR v).Contained ↔ s.r15.toNat < 124 := by
  have hlast : (Push.rstack (rstack_lo + (s.r15 + CELL_BYTES))).Within ↔ s.r15.toNat < 124 := by
    obtain ⟨-, h15, -, a15⟩ := hb
    rw [Push.Within, rstack_hi, cellWithin_offset, CELL_BYTES]
    bv_omega
  rw [Contained, pushed_storeR, List.forall_mem_append, List.forall_mem_singleton, hlast]
  exact and_iff_right h

/-- For a word that only pushes, the data stack is too full or nothing is due. -/
theorem InBounds.due_pushes (hb : s.InBounds) (n : Nat) : ({ pushes := n } : Usage).due s =
    if 252 < s.r14.toNat + 4 * n then some .dstack_overflow else none := by
  obtain ⟨h14, h15, a14, a15⟩ := hb
  rw [Usage.due, if_neg (by dsimp only; omega), if_neg (by dsimp only; omega), if_neg (by dsimp only; omega)]

-- ---------------------------------------------------------------------------
-- Rules of the macros and the memory accesses
-- ---------------------------------------------------------------------------

theorem wp_checkDstackOverflow : wp checkDstackOverflow Q E s ↔
    if 252 ≤ s.r14.toNat then E .dstack_overflow s else Q () s := by
  simp [checkDstackOverflow, dstack_room, BitVec.le_def]

theorem wp_checkDstackOneItem : wp checkDstackOneItem Q E s ↔
    if s.r14.toNat < 4 then E .dstack_underflow s else Q () s := by
  simp [checkDstackOneItem, CELL_BYTES, BitVec.lt_def]

theorem wp_checkDstackTwoItems : wp checkDstackTwoItems Q E s ↔
    if s.r14.toNat < 8 then E .dstack_underflow s else Q () s := by
  simp [checkDstackTwoItems, CELL_BYTES, BitVec.lt_def]

theorem wp_checkRstackOverflow : wp checkRstackOverflow Q E s ↔
    if 124 ≤ s.r15.toNat then E .rstack_overflow s else Q () s := by
  simp [checkRstackOverflow, rstack_room, BitVec.le_def]

theorem wp_checkRstackOneItem : wp checkRstackOneItem Q E s ↔
    if s.r15.toNat < 4 then E .rstack_underflow s else Q () s := by
  simp [checkRstackOneItem, CELL_BYTES, BitVec.lt_def]

theorem wp_checkRstackTwoItems : wp checkRstackTwoItems Q E s ↔
    if s.r15.toNat < 8 then E .rstack_underflow s else Q () s := by
  simp [checkRstackTwoItems, CELL_BYTES, BitVec.lt_def]

theorem wp_pushd : wp (pushd v) Q E s ↔
    if 252 ≤ s.r14.toNat then E .dstack_overflow s else Q () (s.storeD v) := by
  simp [pushd, wp_checkDstackOverflow]

theorem wp_popd : wp popd Q E s ↔
    if s.r14.toNat < 4 then E .dstack_underflow s else Q () s.loadD := by
  simp [popd, wp_checkDstackOneItem]

/-- A load changes nothing but the inputs, and a store nothing but memory. -/
structure Undisturbed (s t : Cpu) : Prop where
  r14 : t.r14 = s.r14
  r15 : t.r15 = s.r15
  pushed : t.pushed = s.pushed

theorem Undisturbed.inBounds (h : Undisturbed s t) (hb : s.InBounds) : t.InBounds :=
  ⟨h.r14 ▸ hb.r14_lt, h.r15 ▸ hb.r15_lt, h.r14 ▸ hb.r14_aligned, h.r15 ▸ hb.r15_aligned⟩

theorem Undisturbed.contained (h : Undisturbed s t) (hc : s.Contained) : t.Contained := by
  rw [Contained, h.pushed]
  exact hc

theorem Undisturbed.refl : Undisturbed s s := ⟨rfl, rfl, rfl⟩

theorem Undisturbed.trans {u : Cpu} (h : Undisturbed s t) (h' : Undisturbed t u) : Undisturbed s u :=
  ⟨h'.r14.trans h.r14, h'.r15.trans h.r15, h'.pushed.trans h.pushed⟩

/-- Leaves the stacks alone, also where an access faults. -/
def Quiet {α : Type} (m : M α) : Prop :=
  ∀ s, wp m (fun _ t => Undisturbed s t) (fun f t => Undisturbed s t ∧ f.External) s

theorem Quiet.wp {α : Type} {m : M α} {Q : α → Cpu → Prop} (h : Quiet m)
    (hQ : ∀ a t, Undisturbed s t → Q a t) (hE : ∀ f t, Undisturbed s t → f.External → E f t) :
    wp m Q E s :=
  wp_mono hQ (fun f t ht => hE f t ht.1 ht.2) (h s)

theorem Quiet.bind {α β : Type} {m : M α} {k : α → M β} (h : Quiet m) (hk : ∀ a, Quiet (k a)) :
    Quiet (m >>= k) := by
  intro s
  rw [wp_bind]
  refine h.wp (fun a t ht => ?_) fun f t ht hf => ⟨ht, hf⟩
  exact (hk a).wp (fun _ _ htu => ht.trans htu) fun f u htu hf => ⟨ht.trans htu, hf⟩

theorem quiet_input : Quiet input := fun _ => ⟨rfl, rfl, rfl⟩

section Access

variable [Board] {n a : Cell}

theorem quiet_load {read : Memory 32 → Cell} {mask : Cell} : Quiet (load n a read mask) := by
  intro s
  simp only [load, wp_bind, wp_ite, wp_throw, wp_get, wp_pure]
  split_ifs
  · exact ⟨.refl, .inl rfl⟩
  · exact .refl
  · exact quiet_input s
  · exact ⟨.refl, .inr (.inl rfl)⟩

theorem quiet_store {write : Memory 32 → Memory 32} : Quiet (store n a write) := by
  intro s
  simp only [store, wp_bind, wp_ite, wp_throw, wp_modify, wp_pure]
  split_ifs
  · exact ⟨.refl, .inl rfl⟩
  · exact ⟨rfl, rfl, rfl⟩
  · exact ⟨.refl, .inr (.inl rfl)⟩
  · exact .refl

theorem quiet_sw (a v : Cell) : Quiet (sw a v) := quiet_store
theorem quiet_sh (a v : Cell) : Quiet (sh a v) := quiet_store
theorem quiet_sb (a v : Cell) : Quiet (sb a v) := quiet_store
theorem quiet_shPair (a v : Cell) : Quiet (shPair a v) := (quiet_sh _ _).bind fun _ => quiet_sh _ _
theorem quiet_lwz (a : Cell) : Quiet (lwz a) := quiet_load
theorem quiet_lhz (a : Cell) : Quiet (lhz a) := quiet_load
theorem quiet_lbz (a : Cell) : Quiet (lbz a) := quiet_load

end Access

end Cpu

-- ---------------------------------------------------------------------------
-- Every primitive but `_dolist` keeps to its stacks
-- ---------------------------------------------------------------------------

namespace Prim

open Cpu

variable [Board] {p : Prim} {s : Cpu} {r1 : Cell}

/-- The primitive succeeds only if its use of the stacks fits, stays in bounds
then, and otherwise fails with the error that is due. -/
def Lawful (p : Prim) (s : Cpu) (r1 : Cell) : Prop :=
  wp (p.exec r1)
    (fun _ t => t.InBounds ∧ t.Contained ∧ (p.usage s).due s = none)
    (fun f t => t.Contained ∧ ((p.usage s).due s = some f ∨ f.External)) s

theorem lawful_storing {access : Cell → Cell → M Unit} (hq : ∀ a v, Quiet (access a v))
    (hp : p.exec r1 = storing access) (hu : p.usage s = { needs := 2 })
    (hb : s.InBounds) (hc : s.Contained) : p.Lawful s r1 := by
  obtain ⟨h14, h15, a14, a15⟩ := id hb
  simp only [Lawful, hp, hu, storing, wp_bind, wp_get, wp_checkDstackTwoItems]
  split
  · exact ⟨hc, .inl (by grind [Usage.due])⟩
  · refine (hq _ _).wp (fun _ t ht => ?_) fun f t ht hf => ⟨ht.contained hc, .inr hf⟩
    have hb' := ht.inBounds hb
    have t14 : 8 ≤ t.r14.toNat := by rw [ht.r14]; omega
    have l14 : 4 ≤ t.loadD.r14.toNat := by rw [toNat_r14_loadD (by omega)]; omega
    rw [wp_popd, if_neg (by omega), wp_popd, if_neg (by omega)]
    exact ⟨(hb'.loadD (by omega)).loadD l14, ht.contained hc, by grind [Usage.due]⟩

theorem lawful_loading {access : Cell → M Cell} (hq : ∀ a, Quiet (access a))
    (hp : p.exec r1 = loading access) (hu : p.usage s = { needs := 1 })
    (hb : s.InBounds) (hc : s.Contained) : p.Lawful s r1 := by
  obtain ⟨h14, h15, a14, a15⟩ := id hb
  simp only [Lawful, hp, hu, loading, wp_bind, wp_get, wp_checkDstackOneItem]
  split
  · exact ⟨hc, .inl (by grind [Usage.due])⟩
  · refine (hq _).wp (fun _ t ht => ?_) fun f t ht hf => ⟨ht.contained hc, .inr hf⟩
    obtain ⟨t14, t15, ta14, ta15⟩ := ht.inBounds hb
    exact ⟨⟨t14, t15, ta14, ta15⟩, ht.contained hc, by grind [Usage.due]⟩

theorem lawful_ask_key (hb : s.InBounds) (hc : s.Contained) : ask_key.Lawful s r1 := by
  -- both device reads leave a state with the stacks of `s`
  have hb' : ∀ i, InBounds { s with inputs := i } := fun i =>
    ⟨hb.r14_lt, hb.r15_lt, hb.r14_aligned, hb.r15_aligned⟩
  have hc' : ∀ i, Contained { s with inputs := i } := fun i => hc
  have a14 := hb.r14_aligned
  have husage : ask_key.usage s = { pushes := if s.inputs.headD 0 &&& 1 = 0 then 1 else 2 } := rfl
  simp only [Lawful, husage, hb.due_pushes, exec, input, wp_bind, wp_get, wp_set, wp_pure, wp_ite, wp_pushd]
  by_cases hkey : s.inputs.headD 0 &&& 1 = 0
  · simp only [if_pos hkey]
    split
    · exact ⟨hc, .inl (if_pos (by omega))⟩
    · have hroom : s.r14.toNat < 252 := by omega
      exact ⟨(hb' _).storeD hroom, (hc' _).storeD (hb' _) hroom, if_neg (by omega)⟩
  · simp only [if_neg hkey]
    split
    · exact ⟨hc, .inl (if_pos (by omega))⟩
    · have hroom : s.r14.toNat < 252 := by omega
      have hb'' := (hb' s.inputs.tail.tail).storeD (v := s.inputs.tail.headD 0) hroom
      have hc'' := (hc' s.inputs.tail.tail).storeD (v := s.inputs.tail.headD 0) (hb' _) hroom
      have t14 := toNat_r14_storeD (s := { s with inputs := s.inputs.tail.tail })
        (v := s.inputs.tail.headD 0) hroom
      dsimp only at t14
      split
      · exact ⟨hc'', .inl (if_pos (by omega))⟩
      · have hroom' := Nat.lt_of_not_le ‹_›
        exact ⟨hb''.storeD hroom', hc''.storeD hb'' hroom', if_neg (by omega)⟩

theorem lawful_of_ne (hb : s.InBounds) (hc : s.Contained) (hp : p ≠ .dolist) : p.Lawful s r1 := by
  obtain ⟨h14, h15, a14, a15⟩ := id hb
  cases p
  case dolist => exact absurd rfl hp
  case store => exact lawful_storing quiet_sw rfl rfl hb hc
  case cstore => exact lawful_storing quiet_sb rfl rfl hb hc
  case xtastore => exact lawful_storing quiet_sh rfl rfl hb hc
  case xta_aligned_store => exact lawful_storing quiet_shPair rfl rfl hb hc
  case «at» => exact lawful_loading quiet_lwz rfl rfl hb hc
  case cat => exact lawful_loading quiet_lbz rfl rfl hb hc
  case xtaat => exact lawful_loading quiet_lhz rfl rfl hb hc
  all_goals unfold Lawful
  case drop =>
    rw [exec, wp_popd]
    split
    · exact ⟨hc, .inl (by grind [Usage.due, usage])⟩
    · exact ⟨hb.loadD (by omega), hc, by grind [Usage.due, usage]⟩
  case rawdot | emit_uart =>
    simp only [exec, wp_bind, wp_checkDstackOneItem, wp_popd]
    split
    · exact ⟨hc, .inl (by grind [Usage.due, usage])⟩
    · exact ⟨hb.loadD (by omega), hc, by grind [Usage.due, usage]⟩
  case execute =>
    simp only [exec, wp_bind, wp_get, wp_modify, wp_checkDstackOneItem, wp_popd]
    split
    · exact ⟨hc, .inl (by grind [Usage.due, usage])⟩
    · obtain ⟨l14, l15, la14, la15⟩ := hb.loadD (by omega)
      exact ⟨⟨l14, l15, la14, la15⟩, hc, by grind [Usage.due, usage]⟩
  case aligned =>
    simp only [exec, wp_bind, wp_get, wp_modify, wp_checkDstackTwoItems, wp_popd]
    split
    · exact ⟨hc, .inl (by grind [Usage.due, usage])⟩
    · rw [if_neg (by omega)]
      obtain ⟨l14, l15, la14, la15⟩ := hb.loadD (by omega)
      exact ⟨⟨l14, l15, la14, la15⟩, hc, by grind [Usage.due, usage]⟩
  case qbranch =>
    simp only [exec, wp_bind, wp_get, wp_modify, wp_checkDstackOneItem, wp_popd]
    split
    · exact ⟨hc, .inl (by grind [Usage.due, usage])⟩
    · refine (quiet_lhz _).wp (fun _ t ht => ?_) fun f t ht hf => ⟨ht.contained hc, .inr hf⟩
      have hitem : ¬ t.r14.toNat < 4 := by rw [ht.r14]; assumption
      rw [if_neg hitem]
      obtain ⟨l14, l15, la14, la15⟩ := (ht.inBounds hb).loadD (Nat.le_of_not_lt hitem)
      exact ⟨⟨l14, l15, la14, la15⟩, ht.contained hc, by grind [Usage.due, usage]⟩
  case dup | «over» | qdup =>
    simp only [exec, wp_bind, wp_get, wp_ite, wp_pure, wp_checkDstackOneItem, wp_checkDstackTwoItems,
      wp_pushd]
    split_ifs
    all_goals first
      | exact ⟨hc, .inl (by grind [Usage.due, usage])⟩
      | exact ⟨hb.storeD (by omega), hc.storeD hb (by omega), by grind [Usage.due, usage]⟩
      | exact ⟨hb, hc, by grind [Usage.due, usage]⟩
  case swap | umplus | zless =>
    simp only [exec, wp_bind, wp_modify, wp_checkDstackOneItem, wp_checkDstackTwoItems]
    split
    · exact ⟨hc, .inl (by grind [Usage.due, usage])⟩
    · exact ⟨⟨h14, h15, a14, a15⟩, hc, by grind [Usage.due, usage]⟩
  case equal | ult | slt | and | or | xor =>
    simp only [exec, cmp, bitwise, wp_bind, wp_modify, wp_checkDstackTwoItems]
    split
    · exact ⟨hc, .inl (by grind [Usage.due, usage])⟩
    · obtain ⟨l14, l15, la14, la15⟩ := hb.loadD (by omega)
      exact ⟨⟨l14, l15, la14, la15⟩, hc, by grind [Usage.due, usage]⟩
  case tor =>
    simp only [exec, wp_bind, wp_modify, wp_checkRstackOverflow, wp_popd]
    split
    · exact ⟨hc, .inl (by grind [Usage.due, usage])⟩
    · have hc' : (s.storeR s.r11).Contained := (contained_storeR hb hc).mpr (by omega)
      split
      · exact ⟨hc', .inl (by grind [Usage.due, usage, storeR])⟩
      · exact ⟨(hb.storeR (by omega)).loadD (Nat.le_of_not_lt ‹_›), hc', by
          grind [Usage.due, usage, storeR]⟩
  case rat =>
    simp only [exec, wp_bind, wp_get, wp_checkRstackOneItem, wp_pushd]
    split_ifs
    · exact ⟨hc, .inl (by grind [Usage.due, usage])⟩
    · exact ⟨hc, .inl (by grind [Usage.due, usage])⟩
    · exact ⟨hb.storeD (by omega), hc.storeD hb (by omega), by grind [Usage.due, usage]⟩
  case rfrom =>
    simp only [exec, wp_bind, wp_get, wp_modify, wp_checkRstackOneItem, wp_pushd]
    split
    · exact ⟨hc, .inl (by grind [Usage.due, usage])⟩
    · have hb' := hb.dropR (by omega)
      split
      · exact ⟨hc, .inl (by grind [Usage.due, usage, dropR])⟩
      · exact ⟨hb'.storeD (Nat.lt_of_not_le ‹_›), Contained.storeD hc hb' (Nat.lt_of_not_le ‹_›), by
          grind [Usage.due, usage, dropR]⟩
  case tworat =>
    simp only [exec, wp_bind, wp_get, wp_checkRstackTwoItems, wp_pushd]
    split
    · exact ⟨hc, .inl (by grind [Usage.due, usage])⟩
    · split
      · exact ⟨hc, .inl (by grind [Usage.due, usage])⟩
      · have hb' : (s.storeD s.topr).InBounds := hb.storeD (by omega)
        have hc' : (s.storeD s.topr).Contained := hc.storeD hb (by omega)
        have t14 : (s.storeD s.topr).r14.toNat = s.r14.toNat + 4 := toNat_r14_storeD (by omega)
        split
        · exact ⟨hc', .inl (by grind [Usage.due, usage])⟩
        · exact ⟨hb'.storeD (by omega), hc'.storeD hb' (by omega), by grind [Usage.due, usage]⟩
  case dolit =>
    simp only [exec, wp_bind, wp_get, wp_modify, wp_pushd]
    refine (quiet_lhz _).wp (fun _ t ht => ?_) fun f t ht hf => ⟨ht.contained hc, .inr hf⟩
    refine (quiet_lhz _).wp (fun _ u hu => ?_) fun f u hu hf => ⟨(ht.trans hu).contained hc, .inr hf⟩
    have htu := ht.trans hu
    obtain ⟨u14, u15, ua14, ua15⟩ := htu.inBounds hb
    have e14 := htu.r14
    split
    · exact ⟨htu.contained hc, .inl (by grind [Usage.due, usage])⟩
    · have hroom : u.r14.toNat < 252 := Nat.lt_of_not_le ‹_›
      refine ⟨InBounds.storeD ⟨u14, u15, ua14, ua15⟩ hroom, ?_, by grind [Usage.due, usage]⟩
      exact Contained.storeD (htu.contained hc) ⟨u14, u15, ua14, ua15⟩ hroom
  case xtalit =>
    simp only [exec, wp_bind, wp_get, wp_modify, wp_pushd]
    refine (quiet_lhz _).wp (fun _ t ht => ?_) fun f t ht hf => ⟨ht.contained hc, .inr hf⟩
    obtain ⟨t14, t15, ta14, ta15⟩ := ht.inBounds hb
    have e14 := ht.r14
    split
    · exact ⟨ht.contained hc, .inl (by grind [Usage.due, usage])⟩
    · have hroom : t.r14.toNat < 252 := Nat.lt_of_not_le ‹_›
      refine ⟨InBounds.storeD ⟨t14, t15, ta14, ta15⟩ hroom, ?_, by grind [Usage.due, usage]⟩
      exact Contained.storeD (ht.contained hc) ⟨t14, t15, ta14, ta15⟩ hroom
  case branch =>
    simp only [exec, wp_bind, wp_get, wp_modify]
    refine (quiet_lhz _).wp (fun _ t ht => ?_) fun f t ht hf => ⟨ht.contained hc, .inr hf⟩
    obtain ⟨t14, t15, ta14, ta15⟩ := ht.inBounds hb
    exact ⟨⟨t14, t15, ta14, ta15⟩, ht.contained hc, by grind [Usage.due, usage]⟩
  case next =>
    simp only [exec, wp_bind, wp_get, wp_ite, wp_modify, wp_checkRstackOneItem]
    split
    · exact ⟨hc, .inl (by grind [Usage.due, usage])⟩
    · split
      · obtain ⟨d14, d15, da14, da15⟩ := hb.dropR (by omega)
        exact ⟨⟨d14, d15, da14, da15⟩, hc, by grind [Usage.due, usage]⟩
      · refine (quiet_lhz _).wp (fun _ t ht => ?_) fun f t ht hf => ⟨ht.contained hc, .inr hf⟩
        obtain ⟨t14, t15, ta14, ta15⟩ := ht.inBounds ⟨h14, h15, a14, a15⟩
        exact ⟨⟨t14, t15, ta14, ta15⟩, ht.contained hc, by grind [Usage.due, usage]⟩
  case depth =>
    simp only [exec, wp_bind, wp_get, wp_pushd]
    split
    · exact ⟨hc, .inl (by grind [Usage.due, usage])⟩
    · exact ⟨hb.storeD (by omega), hc.storeD hb (by omega), by grind [Usage.due, usage]⟩
  case exit =>
    simp only [exec, wp_bind, wp_modify, wp_checkRstackOneItem]
    split
    · exact ⟨hc, .inl (by grind [Usage.due, usage])⟩
    · obtain ⟨d14, d15, da14, da15⟩ := hb.dropR (by omega)
      exact ⟨⟨d14, d15, da14, da15⟩, hc, by grind [Usage.due, usage]⟩
  case reset => exact ⟨hc, .inr (.inr (.inr rfl))⟩
  case ask_key => exact lawful_ask_key hb hc

end Prim

-- ---------------------------------------------------------------------------
-- Steps and runs
-- ---------------------------------------------------------------------------

namespace Cpu

variable {s : Cpu} {inputs : List Cell} {p : Prim} {r1 : Cell}

theorem InBounds.begin (h : s.InBounds) : (s.begin inputs).advance.InBounds :=
  ⟨h.r14_lt, h.r15_lt, h.r14_aligned, h.r15_aligned⟩

theorem contained_begin : (s.begin inputs).advance.Contained := by
  intro p hp
  cases hp

theorem inBounds_recover {f : Fault} : (s.recover f).InBounds :=
  ⟨by simp [recover], by simp [recover], rfl, rfl⟩

variable [Board]

/-- The next step keeps both stack positions within the sizes of the stacks,
pushes into the right areas only, and goes to the matching error list where a
stack has too few items or too little room. An access to memory that faults on
the way takes precedence. -/
structure StackSafe (s : Cpu) (inputs : List Cell) : Prop where
  r14_lt : (s.step inputs).r14.toNat < 4 * 64
  r15_lt : (s.step inputs).r15.toNat < 4 * 32
  contained : (s.step inputs).Contained
  error : ∀ p r1 f, s.fetch = .prim p r1 → (p.usage (s.begin inputs)).due s = some f →
    ∃ (g : Fault) (t : Cpu), (g = f ∨ g.External) ∧ s.step inputs = t.recover g

/-- If the next step calls a list, the return stack has room for the address. -/
def CallFits (s : Cpu) : Prop := s.calls = true → s.r15.toNat + 4 < 4 * 32

instance : Decidable s.CallFits := inferInstanceAs (Decidable (_ → _))

theorem step_prim (inputs : List Cell) (hf : s.fetch = .prim p r1) :
    s.step inputs = settle (p.exec r1 (s.begin inputs).advance) := by
  have hf' : (s.begin inputs).fetch = .prim p r1 := hf
  simp only [step, hf']

theorem step_fault {f : Fault} (inputs : List Cell) (hf : s.fetch = .fault f) :
    s.step inputs = (s.begin inputs).recover f := by
  have hf' : (s.begin inputs).fetch = .fault f := hf
  simp only [step, hf']

theorem step_wild (inputs : List Cell) (hf : s.fetch = .wild) : s.step inputs = s.begin inputs := by
  have hf' : (s.begin inputs).fetch = .wild := hf
  simp only [step, hf']

omit [Board] in
/-- The use of the stacks does not depend on what `_next` has advanced. -/
theorem due_advance : (p.usage (s.begin inputs).advance).due (s.begin inputs).advance =
    (p.usage (s.begin inputs)).due s := by
  cases p <;> rfl

/-- A step that calls no list is safe. -/
theorem stackSafe_of_ne (hb : s.InBounds) (hf : s.fetch = .prim p r1) (hp : p ≠ .dolist) :
    s.StackSafe inputs ∧ (s.step inputs).InBounds := by
  have hlaw : p.Lawful (s.begin inputs).advance r1 := Prim.lawful_of_ne hb.begin contained_begin hp
  rw [Prim.Lawful, due_advance, wp] at hlaw
  have hstep := step_prim inputs hf
  cases hexec : p.exec r1 (s.begin inputs).advance with
  | ok u t =>
    simp only [hexec] at hlaw
    obtain ⟨hb', hc', hdue⟩ := hlaw
    replace hstep : s.step inputs = t := by rw [hstep, hexec]; rfl
    refine ⟨⟨hstep ▸ hb'.r14_lt, hstep ▸ hb'.r15_lt, hstep ▸ hc', ?_⟩, hstep ▸ hb'⟩
    intro q r2 f hq hf'
    obtain ⟨rfl, rfl⟩ : p = q ∧ r1 = r2 := by simpa [hf] using hq
    simp [hdue] at hf'
  | error f t =>
    simp only [hexec] at hlaw
    obtain ⟨hc', hdue⟩ := hlaw
    replace hstep : s.step inputs = t.recover f := by rw [hstep, hexec]; rfl
    have hb' : (s.step inputs).InBounds := hstep ▸ inBounds_recover
    refine ⟨⟨hb'.r14_lt, hb'.r15_lt, hstep ▸ hc', ?_⟩, hb'⟩
    intro q r2 g hq hg
    obtain ⟨rfl, rfl⟩ : p = q ∧ r1 = r2 := by simpa [hf] using hq
    refine ⟨f, t, hdue.imp_left fun h => ?_, hstep⟩
    simpa [hg] using h.symm

/-- `_dolist` stores without a check: a call is safe exactly if the address fits. -/
theorem stackSafe_dolist (hb : s.InBounds) (hf : s.fetch = .prim .dolist r1) :
    (s.StackSafe inputs ↔ s.r15.toNat + 4 < 4 * 32) ∧
      (s.StackSafe inputs → (s.step inputs).InBounds) := by
  generalize hfrom : (s.begin inputs).advance = from'
  have hbegin : from'.InBounds := hfrom ▸ hb.begin
  have hr15 : from'.r15 = s.r15 := hfrom ▸ rfl
  have hstep : s.step inputs = { from'.storeR from'.r10 with r10 := r1 + 2 } :=
    hfrom ▸ step_prim inputs hf
  have hcontained : (s.step inputs).Contained ↔ s.r15.toNat < 124 := by
    rw [hstep, ← hr15]
    exact contained_storeR (v := from'.r10) hbegin (hfrom ▸ contained_begin)
  have hbounds (hroom : s.r15.toNat < 124) : (s.step inputs).InBounds := by
    obtain ⟨t14, t15, ta14, ta15⟩ := hbegin.storeR (v := from'.r10) (hr15 ▸ hroom)
    exact hstep ▸ ⟨t14, t15, ta14, ta15⟩
  have haligned := hb.r15_aligned
  refine ⟨⟨fun hs => ?_, fun hfits => ?_⟩, fun hs => hbounds (hcontained.mp hs.contained)⟩
  · have := hcontained.mp hs.contained
    omega
  · have hroom : s.r15.toNat < 124 := by omega
    refine ⟨(hbounds hroom).r14_lt, (hbounds hroom).r15_lt, hcontained.mpr hroom, ?_⟩
    intro p r2 f hp hdue
    obtain ⟨rfl, rfl⟩ : Prim.dolist = p ∧ r1 = r2 := by simpa [hf] using hp
    have h14 := hb.r14_lt
    have a14 := hb.r14_aligned
    simp [Usage.due, Prim.usage, show ¬ 124 < s.r15.toNat + 4 by omega,
      show ¬ 252 < s.r14.toNat by omega] at hdue

theorem stackSafe_iff (hb : s.InBounds) : s.StackSafe inputs ↔ s.CallFits := by
  cases hf : s.fetch with
  | prim p r1 =>
    by_cases hp : p = .dolist
    · subst hp
      rw [(stackSafe_dolist hb hf).1, CallFits, calls, hf]
      simp
    · refine iff_of_true (stackSafe_of_ne hb hf hp).1 fun hcalls => ?_
      simp [calls, hf, hp] at hcalls
  | fault f =>
    have hstep := step_fault inputs hf
    refine iff_of_true ?_ (by simp [CallFits, calls, hf])
    refine ⟨hstep ▸ inBounds_recover.r14_lt, hstep ▸ inBounds_recover.r15_lt, ?_, by simp [hf]⟩
    rw [hstep]
    exact fun p hp => nomatch hp
  | wild =>
    have hstep := step_wild inputs hf
    refine iff_of_true ?_ (by simp [CallFits, calls, hf])
    refine ⟨hstep ▸ hb.r14_lt, hstep ▸ hb.r15_lt, ?_, by simp [hf]⟩
    rw [hstep]
    exact fun p hp => nomatch hp

theorem inBounds_step (hb : s.InBounds) (hs : s.StackSafe inputs) : (s.step inputs).InBounds := by
  cases hf : s.fetch with
  | prim p r1 =>
    by_cases hp : p = .dolist
    · subst hp
      exact (stackSafe_dolist hb hf).2 hs
    · exact (stackSafe_of_ne hb hf hp).2
  | fault f => exact step_fault inputs hf ▸ inBounds_recover
  | wild => exact step_wild inputs hf ▸ ⟨hb.r14_lt, hb.r15_lt, hb.r14_aligned, hb.r15_aligned⟩

/-- From any state within the bounds, whatever code memory holds and devices
answer: every step of a run is stack-safe exactly if each list that the run
calls still finds a free cell on the return stack. -/
theorem stack_safe (hb : s.InBounds) (es : List (List Cell)) :
    system.Along StackSafe s es ↔ system.Along (fun s _ => s.CallFits) s es :=
  System.along_congr (fun _ _ h => stackSafe_iff h) (fun _ _ h hs => inBounds_step h hs) hb

end Cpu

-- ---------------------------------------------------------------------------
-- Definitions nested too deep
-- ---------------------------------------------------------------------------

namespace Nested

local instance : Board where
  ram a := a < 0x14000
  device _ := false

/-- Where the `k`-th of a chain of definitions starts that each call the next one. -/
def word (k : Nat) : Cell := bss_end + 8 * BitVec.ofNat 32 k

/-- The lists `: w0 w1 ;`, `: w1 w2 ;` and so on, as the compiler lays them out. -/
def memory : Memory 32 := fun a =>
  let offset := (a - bss_end).toNat
  let call : Half := (word (offset / 8 + 1) - start).setWidth 16
  let exit : Half := 0x610
  match offset % 8 with
  | 0 => Prim.dolist.code.extractLsb' 8 8
  | 1 => Prim.dolist.code.extractLsb' 0 8
  | 2 => call.extractLsb' 8 8
  | 3 => call.extractLsb' 0 8
  | 4 => exit.extractLsb' 8 8
  | _ => exit.extractLsb' 0 8

/-- The first word of the chain is executed on empty stacks. -/
def cpu : Cpu where
  r10 := word 0 + 2
  r11 := 0
  r14 := 0
  r15 := 0
  mem := memory

/-- The thirty-second call stores its return address on the data stack. -/
theorem call_overwrites_dstack :
    ¬ Cpu.system.Along Cpu.StackSafe cpu (List.replicate 32 []) := by
  intro hsafe
  have hwithin : ∀ p ∈ Cpu.system.log cpu (List.replicate 32 []), p.Within :=
    System.log_forall (I := fun _ => True) (fun _ _ _ _ => trivial) (fun _ _ _ h => h.contained)
      trivial hsafe
  revert hwithin
  decide +kernel

/-- One definition less, and every call fits. -/
theorem stack_safe_chain : Cpu.system.Along Cpu.StackSafe cpu (List.replicate 31 []) :=
  (Cpu.stack_safe ⟨by decide, by decide, rfl, rfl⟩ _).mpr (by decide +kernel)

end Nested

end Allwinner.Scp
