import Allwinner.Scp.StackSafety
import Allwinner.Scp.Threaded

/-!
# The state of the token machine in registers

The firmware keeps the lists, the code and both stacks in memory, where the machine of `Forth` has lists of
its own. The registers show a state of that machine if they and the areas of the stacks hold what its lists
say, and the rest of memory is the same.
-/

namespace Allwinner.Scp

open Library Memory

-- ---------------------------------------------------------------------------
-- A stack in memory
-- ---------------------------------------------------------------------------

/-- The items from the top down to `lo`, which the lowest one follows. -/
def Cells (m : Memory 32) (lo : Cell) : List Cell → Prop
  | [] => True
  | v :: vs => load32 m (lo + BitVec.ofNat 32 (4 * (vs.length + 1))) = v ∧ Cells m lo vs

theorem cell_toNat {a : Cell} {n : Nat} (h : a.toNat + 4 * n < 2 ^ 32) :
    (a + BitVec.ofNat 32 (4 * n)).toNat = a.toNat + 4 * n := toNat_add_ofNat h

theorem Cells.kept {m m' : Memory 32} {lo : Cell} {vs : List Cell} (h : Cells m lo vs)
    (hfits : lo.toNat + 4 * vs.length + 4 ≤ 2 ^ 32)
    (hkeeps : ∀ b : Cell, lo.toNat + 4 ≤ b.toNat → b.toNat < lo.toNat + 4 * vs.length + 4 → m' b = m b) :
    Cells m' lo vs := by
  induction vs with
  | nil => trivial
  | cons v vs ih =>
    obtain ⟨hv, hvs⟩ := h
    rw [List.length_cons] at hfits hkeeps
    refine ⟨?_, ih hvs (by omega) fun b hlo hhi => hkeeps b hlo (by omega)⟩
    have htop := cell_toNat (a := lo) (n := vs.length + 1) (by omega)
    have hsame : Keeps {k | k < lo.toNat + 4 ∨ lo.toNat + 4 * (vs.length + 1) + 4 ≤ k} m m' := fun b hb => by
      have hb : ¬ (b.toNat < lo.toNat + 4 ∨ lo.toNat + 4 * (vs.length + 1) + 4 ≤ b.toNat) := hb
      exact hkeeps b (by omega) (by omega)
    rw [hsame.load32 (by omega) fun k hlo hhi hk => ?_]
    · exact hv
    · have hk : k < lo.toNat + 4 ∨ lo.toNat + 4 * (vs.length + 1) + 4 ≤ k := hk
      omega

/-- What is stored above the items leaves them alone. -/
theorem Cells.stored {m : Memory 32} {lo a v : Cell} {vs : List Cell} (h : Cells m lo vs)
    (ha : a.toNat + 4 ≤ 2 ^ 32) (hfar : lo.toNat + 4 * vs.length + 4 ≤ a.toNat ∨ a.toNat + 4 ≤ lo.toNat + 4)
    (hfits : lo.toNat + 4 * vs.length + 4 ≤ 2 ^ 32) : Cells (store32 m a v) lo vs := by
  refine h.kept hfits fun b hlo hhi => store32_keeps v ha b fun hb => ?_
  have := hb.1
  have := hb.2
  omega

/-- An item more. -/
theorem Cells.push {m : Memory 32} {lo v : Cell} {vs : List Cell} (h : Cells m lo vs)
    (hfits : lo.toNat + 4 * vs.length + 8 ≤ 2 ^ 32) :
    Cells (store32 m (lo + BitVec.ofNat 32 (4 * (vs.length + 1))) v) lo (v :: vs) := by
  have htop := cell_toNat (a := lo) (n := vs.length + 1) (by omega)
  exact ⟨load32_store32 _ (by omega), h.stored (by omega) (.inl (by omega)) (by omega)⟩

theorem dstack_lo_toNat : dstack_lo.toNat = 73596 := by decide
theorem rstack_lo_toNat : rstack_lo.toNat = 73468 := by decide
theorem dstack_hi_toNat : dstack_hi.toNat = 73852 := by decide

/-- Two memories that differ in the areas of the stacks only. -/
def Alike (m m' : Memory 32) : Prop := ∀ a, stacked a = false → m a = m' a

theorem stacked_iff {a : Cell} : stacked a = true ↔ 73468 ≤ a.toNat ∧ a.toNat < 73852 := by
  rw [stacked, Bool.and_eq_true, decide_eq_true_iff, decide_eq_true_iff, rstack_lo_toNat, dstack_hi_toNat]

/-- What is pushed stays in the areas of the stacks. -/
theorem Alike.stored {m m' : Memory 32} {a v : Cell} (h : Alike m m') (hlo : 73468 ≤ a.toNat)
    (hhi : a.toNat + 4 ≤ 73852) : Alike (store32 m a v) m' := by
  intro b hb
  rw [← h b hb]
  refine store32_keeps v (by omega) b fun hmem => ?_
  have := hmem.1
  have := hmem.2
  rw [stacked_iff.mpr (by omega)] at hb
  cases hb

/-- The areas begin and end at a cell. -/
theorem stacked_congr {a b : Cell} (h : a.toNat / 4 = b.toNat / 4) : stacked a = stacked b := by
  rw [Bool.eq_iff_iff, stacked_iff, stacked_iff]
  omega

/-- So do the variables. -/
theorem fixed_congr {a b : Cell} (h : a.toNat / 4 = b.toNat / 4) : fixed a = fixed b := by
  have haligned : ∀ l ∈ Label.var_xts, l.storage.toNat % 4 = 0 := by decide
  have hcell {l : Label} (hl : l ∈ Label.var_xts) :
      (l.storage.toNat ≤ a.toNat ∧ a.toNat < l.storage.toNat + 4) ↔
      l.storage.toNat ≤ b.toNat ∧ b.toNat < l.storage.toNat + 4 := by
    have := haligned l hl
    omega
  have hlow : a.toNat < rstack_lo.toNat ↔ b.toNat < rstack_lo.toNat := by
    rw [rstack_lo_toNat]
    omega
  rw [Bool.eq_iff_iff]
  simp only [fixed, Bool.and_eq_true, Bool.not_eq_true', List.any_eq_false, decide_eq_true_iff, hlow]
  exact and_congr_right fun _ => forall₂_congr fun l hl => not_congr (hcell hl)

section Access

variable [Board] {n a : Cell}

theorem access_eq_ram : access n a = .ram ↔ a % n = 0 ∧ Board.ram a = true ∧ stacked a = false := by
  unfold access
  split_ifs <;> simp_all

omit [Board] in
theorem aligned_toNat (h : a % n = 0) : a.toNat % n.toNat = 0 := by
  have := congrArg BitVec.toNat h
  rwa [BitVec.toNat_umod] at this

/-- The bytes of a half word lie on the same side as its address. -/
theorem Alike.half {m m' : Memory 32} (h : Alike m m') (ha : access 2 a = .ram) : load16 m a = load16 m' a := by
  obtain ⟨haligned, -, hstacked⟩ := access_eq_ram.mp ha
  have haligned : a.toNat % 2 = 0 := aligned_toNat haligned
  have hnext : (a + 1).toNat = a.toNat + 1 := toNat_add_ofNat (n := 1) (by have := a.isLt; omega)
  rw [load16, load16, h a hstacked, h (a + 1) ((stacked_congr (by omega)).trans hstacked)]

theorem Alike.cell {m m' : Memory 32} (h : Alike m m') (ha : access 4 a = .ram) : load32 m a = load32 m' a := by
  obtain ⟨haligned, -, hstacked⟩ := access_eq_ram.mp ha
  have haligned : a.toNat % 4 = 0 := aligned_toNat haligned
  have hnext {k : Nat} (hk : k < 4) : m (a + BitVec.ofNat 32 k) = m' (a + BitVec.ofNat 32 k) := by
    have htoNat : (a + BitVec.ofNat 32 k).toNat = a.toNat + k := toNat_add_ofNat (by have := a.isLt; omega)
    exact h _ ((stacked_congr (by omega)).trans hstacked)
  rw [load32, load32, load16, load16, load16, load16, h a hstacked, BitVec.add_assoc]
  exact congrArg₂ _ (congrArg _ (hnext (k := 1) (by decide)))
    (congrArg₂ _ (hnext (k := 2) (by decide)) (hnext (k := 3) (by decide)))

end Access

-- ---------------------------------------------------------------------------
-- The lists of the firmware in memory
-- ---------------------------------------------------------------------------

namespace Label

/-- The code field. -/
def code (l : Label) : Half := (l.prim?.getD .dolist).code

/-- The half words of the tokens in front of the one at `k`. -/
def before (l : Label) (k : Nat) : Nat := ((l.list.take k).map Tok.size).sum

/-- The half words of the list. -/
def span (l : Label) : Nat := (l.list.map Tok.size).sum

/-- Where a branch at `k` goes to. -/
def goal (l : Label) (k : Nat) (r : Ref) : Half := ((l.target k r).map fun i => xta (Ip.rom l i).addr).getD 0

/-- The half words of a token at `k`. -/
def halves (l : Label) (k : Nat) : Tok → List Half
  | .xt l' => [l'.offset]
  | .lit v => [dolit.offset, v.extractLsb' 16 16, v.extractLsb' 0 16]
  | .xtalit l' => [xtalit.offset, l'.offset]
  | .branch r => [branch.offset, l.goal k r]
  | .qbranch r => [qbranch.offset, l.goal k r]
  | .next r => [next.offset, l.goal k r]
  | .branchTo l' => [branch.offset, xta (Ip.rom l' 0).addr]
  | .mark _ => []

variable {l : Label} {k : Nat} {t : Tok}

theorem length_halves (l : Label) (k : Nat) (t : Tok) : (l.halves k t).length = t.size := by cases t <;> rfl

theorem before_succ (ht : l.list[k]? = some t) : l.before (k + 1) = l.before k + t.size := by
  rw [before, before, List.take_add_one, ht, Option.toList_some, List.map_append, List.sum_append]
  rfl

theorem before_le (l : Label) (k : Nat) : l.before k ≤ l.span := by
  rw [span, ← List.take_append_drop k l.list, List.map_append, List.sum_append]
  exact Nat.le_add_right _ _

/-- The lists lie in front of the stacks, apart from the variables. -/
theorem list_placed : ∀ l ∈ all, l.addr.toNat % 2 = 0 ∧ start.toNat ≤ l.addr.toNat ∧
    l.addr.toNat + 2 + 2 * l.span ≤ rstack_lo.toNat ∧
    ∀ v ∈ var_xts, l.addr.toNat + 2 + 2 * l.span ≤ v.storage.toNat ∨ v.storage.toNat + 4 ≤ l.addr.toNat := by
  decide +kernel

theorem rom_toNat (l : Label) (k : Nat) : (Ip.rom l k).addr.toNat = l.addr.toNat + 2 + 2 * l.before k := by
  obtain ⟨-, -, hhigh, -⟩ := list_placed l l.mem_all
  have hle := l.before_le k
  rw [rstack_lo_toNat] at hhigh
  have hfirst : (l.addr + 2).toNat = l.addr.toNat + 2 := toNat_add_ofNat (n := 2) (by omega)
  show (l.addr + 2 + BitVec.ofNat 32 (2 * l.before k)).toNat = _
  rw [toNat_add_ofNat (by omega), hfirst]

/-- Stores leave the lists alone. -/
theorem region_fixed {a : Cell} (hlo : l.addr.toNat ≤ a.toNat) (hhi : a.toNat < l.addr.toNat + 2 + 2 * l.span) :
    fixed a = Bool.true := by
  obtain ⟨-, -, hhigh, hvars⟩ := list_placed l l.mem_all
  rw [Scp.fixed, Bool.and_eq_true, decide_eq_true_iff, Bool.not_eq_true', List.any_eq_false]
  refine ⟨by omega, fun v hv => ?_⟩
  have := hvars v hv
  rw [Bool.and_eq_true, decide_eq_true_iff, decide_eq_true_iff]
  omega

end Label

/-- The lists of the firmware and their code fields. -/
structure Lists (m : Memory 32) : Prop where
  code : ∀ l ∈ Label.all.drop 8, load16 m l.addr = l.code
  list : ∀ (l : Label) (k : Nat) (t : Tok), l.list[k]? = some t →
    ∀ (i : Nat) (x : Half), (l.halves k t)[i]? = some x →
      load16 m ((Ip.rom l k).addr + BitVec.ofNat 32 (2 * i)) = x

/-- The half word at `i` of a token. -/
theorem Label.half_toNat {l : Label} {k i : Nat} {t : Tok} (ht : l.list[k]? = some t) (hi : i < t.size) :
    ((Ip.rom l k).addr + BitVec.ofNat 32 (2 * i)).toNat = l.addr.toNat + 2 + 2 * (l.before k + i) ∧
      l.before k + i < l.span := by
  have hnext := l.before_le (k + 1)
  obtain ⟨-, -, hhigh, -⟩ := list_placed l l.mem_all
  rw [before_succ ht] at hnext
  rw [rstack_lo_toNat] at hhigh
  have hk := rom_toNat l k
  refine ⟨?_, by omega⟩
  rw [toNat_add_ofNat (by omega), hk]
  omega

theorem Lists.kept {m m' : Memory 32} (h : Lists m) (hkeeps : ∀ a, fixed a = true → m' a = m a) : Lists m' := by
  have hhalf {l : Label} {a : Cell} (hlo : l.addr.toNat ≤ a.toNat)
      (hhi : a.toNat + 2 ≤ l.addr.toNat + 2 + 2 * l.span) :
      load16 m' a = load16 m a := by
    have hhigh := (Label.list_placed l l.mem_all).2.2.1
    rw [rstack_lo_toNat] at hhigh
    have hnext : (a + 1).toNat = a.toNat + 1 := toNat_add_ofNat (n := 1) (by omega)
    rw [load16, load16, hkeeps a (Label.region_fixed (l := l) hlo (by omega)),
      hkeeps (a + 1) (Label.region_fixed (l := l) (by omega) (by omega))]
  refine ⟨fun l hl => ?_, fun l k t ht i x hx => ?_⟩
  · rw [hhalf (l := l) (Nat.le_refl _) (by omega)]
    exact h.code l hl
  · have hi := (List.getElem?_eq_some_iff.mp hx).1
    rw [Label.length_halves] at hi
    obtain ⟨htoNat, hlt⟩ := Label.half_toNat ht hi
    rw [hhalf (l := l) (by omega) (by omega)]
    exact h.list l k t ht i x hx

-- ---------------------------------------------------------------------------
-- The lists as the assembler lays them out
-- ---------------------------------------------------------------------------

namespace Label

variable {l : Label} {k i : Nat} {t : Tok}

/-- The half words of the tokens `ts`, the first of which is at `k`. -/
def assembled (l : Label) : Nat → List Tok → List Half
  | _, [] => []
  | k, t :: ts => l.halves k t ++ l.assembled (k + 1) ts

def list_segment (l : Label) : Cell × List Byte := (l.addr + 2, (l.assembled 0 l.list).flatMap bytes16)

def code_segment (l : Label) : Cell × List Byte := (l.addr, bytes16 l.code)

theorem getElem?_assembled {ts : List Tok} {j : Nat} (ht : ts[k]? = some t) (hi : i < t.size) :
    (l.assembled j ts)[((ts.take k).map Tok.size).sum + i]? = (l.halves (j + k) t)[i]? := by
  induction ts generalizing j k with
  | nil => cases ht
  | cons u ts ih =>
    cases k with
    | zero =>
      cases ht
      rw [List.take_zero, List.map_nil, List.sum_nil, Nat.zero_add, assembled,
        List.getElem?_append_left (by rwa [length_halves])]
      rfl
    | succ k =>
      rw [List.take_succ_cons, List.map_cons, List.sum_cons, assembled, Nat.add_assoc,
        List.getElem?_append_right (by rw [length_halves]; omega), length_halves, Nat.add_sub_cancel_left,
        ih ht, Nat.add_right_comm, Nat.add_assoc]

end Label

def list_segments : List (Cell × List Byte) :=
  (Label.all.take 8).map Label.list_segment ++
    (Label.all.drop 8).flatMap fun l => [l.code_segment, l.list_segment]

theorem list_segments_ascend :
    list_segments.Pairwise fun s t => s.1.toNat + s.2.length ≤ t.1.toNat := by
  have : Trans (fun s t : Cell × List Byte => s.1.toNat + s.2.length ≤ t.1.toNat)
      (fun s t : Cell × List Byte => s.1.toNat + s.2.length ≤ t.1.toNat)
      (fun s t : Cell × List Byte => s.1.toNat + s.2.length ≤ t.1.toNat) := ⟨fun h h' => by omega⟩
  refine List.isChain_iff_pairwise.mp ?_
  decide +kernel

theorem list_segments_fit : ∀ s ∈ list_segments, s.1.toNat + s.2.length ≤ 2 ^ 32 := by decide +kernel

theorem list_segment_mem (l : Label) : l.list_segment ∈ list_segments := by
  have hl := l.mem_all
  rw [← List.take_append_drop 8 Label.all] at hl
  obtain hl | hl := List.mem_append.mp hl
  · exact List.mem_append_left _ (List.mem_map_of_mem hl)
  · exact List.mem_append_right _ (List.mem_flatMap.mpr ⟨l, hl, by simp⟩)

/-- The firmware as it is loaded has its lists. -/
theorem lists_loaded (m : Memory 32) : Lists (load m list_segments) := by
  refine ⟨fun l hl => ?_, fun l k t ht i x hx => ?_⟩
  · have hmem : l.code_segment ∈ list_segments :=
      List.mem_append_right _ (List.mem_flatMap.mpr ⟨l, hl, List.mem_cons_self⟩)
    exact load16_of_bytes (bytes_load list_segments_ascend list_segments_fit hmem)
  · have hi := (List.getElem?_eq_some_iff.mp hx).1
    rw [Label.length_halves] at hi
    have hword : (l.assembled 0 l.list)[l.before k + i]? = some x := by
      rw [← hx, Label.before, Label.getElem?_assembled ht hi, Nat.zero_add]
    have hlt := (List.getElem?_eq_some_iff.mp hword).1
    have himage := bytes_load list_segments_ascend list_segments_fit (m := m) (list_segment_mem l)
    have hlength : l.list_segment.2.length = 2 * (l.assembled 0 l.list).length := by
      simp [Label.list_segment, List.length_flatMap, Nat.mul_comm]
    rw [hlength] at himage
    have haddr : (Ip.rom l k).addr + BitVec.ofNat 32 (2 * i) =
        l.addr + 2 + BitVec.ofNat 32 (2 * (l.before k + i)) := by
      rw [Nat.mul_add, BitVec.ofNat_add, ← BitVec.add_assoc]
      rfl
    rw [haddr]
    refine load16_of_bytes ?_
    rw [← take_flatMap_bytes16 hword, show (l.assembled 0 l.list).flatMap bytes16 = l.list_segment.2 from rfl,
      ← himage, bytes_drop (by omega), bytes_take (by omega)]
    rfl

-- ---------------------------------------------------------------------------
-- What the registers show
-- ---------------------------------------------------------------------------

namespace Cpu

/-- Memory is that of the token machine, whatever the stacks hold. -/
structure Backs (c : Cpu) (s : Forth) : Prop where
  alike : Alike c.mem s.mem
  lists : Lists s.mem

/-- The registers and the areas of the stacks hold a state of the token machine. -/
structure Shows (c : Cpu) (s : Forth) : Prop extends Backs c s where
  r10 : c.r10 = s.ip.addr
  jump : c.jump = s.jump
  r14 : c.r14 = BitVec.ofNat 32 (4 * s.ds.length)
  r15 : c.r15 = BitVec.ofNat 32 (4 * s.rs.length)
  fits : s.Fits
  top : ∀ a ∈ s.ds.head?, c.r11 = a
  below : Cells c.mem (dstack_lo + 4) s.ds.tail
  calls : Cells c.mem rstack_lo (s.rs.map Ip.addr)

variable {c : Cpu} {s : Forth} {v a b : Cell} {ds : List Cell} {r r' : Ip} {rs : List Ip}

theorem second_toNat : (dstack_lo + 4 : Cell).toNat = 73600 := by decide

theorem dstack_toNat {n : Nat} (hn : n ≤ 63) : (dstack_lo + BitVec.ofNat 32 (4 * n)).toNat = 73596 + 4 * n := by
  rw [cell_toNat (by rw [dstack_lo_toNat]; omega), dstack_lo_toNat]

theorem rstack_toNat {n : Nat} (hn : n ≤ 31) : (rstack_lo + BitVec.ofNat 32 (4 * n)).toNat = 73468 + 4 * n := by
  rw [cell_toNat (by rw [rstack_lo_toNat]; omega), rstack_lo_toNat]

/-- The cell under the top is one further up than its place in the list says. -/
theorem second_addr (n : Nat) :
    (dstack_lo + 4 : Cell) + BitVec.ofNat 32 (4 * n) = dstack_lo + BitVec.ofNat 32 (4 * (n + 1)) := by
  rw [BitVec.add_assoc, show (4 : Cell) = BitVec.ofNat 32 4 from rfl, ← BitVec.ofNat_add]
  congr 2
  omega

theorem ofNat_succ (n : Nat) : BitVec.ofNat 32 (4 * n) + CELL_BYTES = BitVec.ofNat 32 (4 * (n + 1)) := by
  rw [CELL_BYTES, show (4 : Cell) = BitVec.ofNat 32 4 from rfl, ← BitVec.ofNat_add]
  rfl

theorem ofNat_pred (n : Nat) : BitVec.ofNat 32 (4 * (n + 1)) - CELL_BYTES = BitVec.ofNat 32 (4 * n) := by
  rw [← ofNat_succ, BitVec.add_sub_cancel]

namespace Shows

theorem r14_toNat (h : c.Shows s) : c.r14.toNat = 4 * s.ds.length := by
  have := h.fits.1
  rw [Forth.dstack_items] at this
  rw [h.r14, BitVec.toNat_ofNat, Nat.mod_eq_of_lt (by omega)]

theorem r15_toNat (h : c.Shows s) : c.r15.toNat = 4 * s.rs.length := by
  have := h.fits.2
  rw [Forth.rstack_items] at this
  rw [h.r15, BitVec.toNat_ofNat, Nat.mod_eq_of_lt (by omega)]

/-- Execution goes on elsewhere. -/
theorem goes (h : c.Shows s) (ip : Ip) : { c with r10 := ip.addr }.Shows { s with ip } :=
  { h with r10 := rfl }

theorem with_jump (h : c.Shows s) (j : Option Cell) : { c with jump := j }.Shows { s with jump := j } :=
  { h with jump := rfl }

theorem with_io (h : c.Shows s) (inputs : List Cell) (io : Io) : { c with inputs }.Shows { s with io } := { h with }

theorem with_pushed (h : c.Shows s) (pushed : List Push) : { c with pushed }.Shows s := { h with }

/-- The top is replaced. -/
theorem with_top (h : c.Shows s) (hds : s.ds = a :: ds) (v : Cell) :
    { c with r11 := v }.Shows { s with ds := v :: ds } := by
  obtain ⟨⟨halike, hlists⟩, h10, hjump, h14, h15, hfits, -, hbelow, hcalls⟩ := h
  rw [Forth.Fits, hds] at hfits
  rw [hds] at h14 hbelow
  exact ⟨⟨halike, hlists⟩, h10, hjump, h14, h15, hfits, fun _ h => Option.some.inj h, hbelow, hcalls⟩

theorem storeD (h : c.Shows s) (hroom : s.ds.length < 63) (v : Cell) :
    (c.storeD v).Shows { s with ds := v :: s.ds } := by
  obtain ⟨⟨halike, hlists⟩, h10, hjump, h14, h15, hfits, htop, hbelow, hcalls⟩ := h
  have haddr : dstack_lo + (c.r14 + CELL_BYTES) = dstack_lo + BitVec.ofNat 32 (4 * (s.ds.length + 1)) := by
    rw [h14, ofNat_succ]
  have htoNat := dstack_toNat (n := s.ds.length + 1) hroom
  have hrs := hfits.2
  rw [Forth.rstack_items] at hrs
  refine ⟨⟨?_, hlists⟩, h10, hjump, ?_, h15, ⟨hroom, hfits.2⟩, fun _ h => Option.some.inj h, ?_, ?_⟩
  · show Alike (store32 c.mem (dstack_lo + (c.r14 + CELL_BYTES)) c.r11) s.mem
    rw [haddr]
    exact halike.stored (by omega) (by omega)
  · show c.r14 + CELL_BYTES = _
    rw [h14, ofNat_succ]
    rfl
  · show Cells (store32 c.mem (dstack_lo + (c.r14 + CELL_BYTES)) c.r11) (dstack_lo + 4) s.ds
    rw [haddr]
    cases hds : s.ds with
    | nil => trivial
    | cons a ds =>
      rw [hds] at hbelow hroom
      rw [List.length_cons, ← second_addr, htop a (by rw [hds]; rfl)]
      refine Cells.push hbelow ?_
      rw [second_toNat]
      simp only [List.length_cons] at hroom ⊢
      omega
  · show Cells (store32 c.mem (dstack_lo + (c.r14 + CELL_BYTES)) c.r11) rstack_lo (s.rs.map Ip.addr)
    rw [haddr]
    refine hcalls.stored (by omega) (.inl ?_) ?_ <;> rw [List.length_map, rstack_lo_toNat] <;> omega

theorem second (h : c.Shows s) (hds : s.ds = a :: b :: ds) : c.secondItem = b := by
  have hbelow := h.below
  rw [hds] at hbelow
  rw [secondItem, h.r14, hds, List.length_cons, List.length_cons, ← second_addr]
  exact hbelow.1

theorem first (h : c.Shows s) (hds : s.ds = a :: ds) : c.r11 = a := h.top a (by rw [hds]; rfl)

theorem loadD (h : c.Shows s) (hds : s.ds = a :: ds) : c.loadD.Shows { s with ds } := by
  have hsecond (b : Cell) (hb : b ∈ ds.head?) : c.secondItem = b := by
    obtain ⟨ds', rfl⟩ : ∃ ds', ds = b :: ds' := ⟨ds.tail, (List.cons_head?_tail hb).symm⟩
    exact h.second hds
  obtain ⟨⟨halike, hlists⟩, h10, hjump, h14, h15, hfits, -, hbelow, hcalls⟩ := h
  rw [Forth.Fits, hds] at hfits
  rw [hds] at h14 hbelow
  refine ⟨⟨halike, hlists⟩, h10, hjump, ?_, h15, ⟨Nat.le_of_succ_le hfits.1, hfits.2⟩, hsecond, ?_, hcalls⟩
  · show c.r14 - CELL_BYTES = _
    rw [h14]
    exact ofNat_pred _
  · cases ds with
    | nil => trivial
    | cons b ds => exact hbelow.2

theorem topr (h : c.Shows s) (hrs : s.rs = r :: rs) : c.topr = r.addr := by
  have hcalls := h.calls
  rw [hrs] at hcalls
  have hr := hcalls.1
  rw [List.length_map] at hr
  rw [Cpu.topr, h.r15, hrs]
  exact hr

theorem storeR (h : c.Shows s) (hroom : s.rs.length < 31) (ip : Ip) :
    (c.storeR ip.addr).Shows { s with rs := ip :: s.rs } := by
  obtain ⟨⟨halike, hlists⟩, h10, hjump, h14, h15, hfits, htop, hbelow, hcalls⟩ := h
  have haddr : rstack_lo + (c.r15 + CELL_BYTES) = rstack_lo + BitVec.ofNat 32 (4 * (s.rs.length + 1)) := by
    rw [h15, ofNat_succ]
  have htoNat := rstack_toNat (n := s.rs.length + 1) hroom
  have hds := hfits.1
  rw [Forth.dstack_items] at hds
  refine ⟨⟨?_, hlists⟩, h10, hjump, h14, ?_, ⟨hfits.1, hroom⟩, htop, ?_, ?_⟩
  · show Alike (store32 c.mem (rstack_lo + (c.r15 + CELL_BYTES)) ip.addr) s.mem
    rw [haddr]
    exact halike.stored (by omega) (by omega)
  · show c.r15 + CELL_BYTES = _
    rw [h15, ofNat_succ]
    rfl
  · show Cells (store32 c.mem (rstack_lo + (c.r15 + CELL_BYTES)) ip.addr) (dstack_lo + 4) s.ds.tail
    rw [haddr]
    refine hbelow.stored (by omega) (.inr ?_) ?_ <;> rw [second_toNat]
    · omega
    · rw [List.length_tail]
      omega
  · show Cells (store32 c.mem (rstack_lo + (c.r15 + CELL_BYTES)) ip.addr) rstack_lo (ip.addr :: s.rs.map Ip.addr)
    rw [haddr]
    have hpush := Cells.push (v := ip.addr) hcalls (by rw [List.length_map, rstack_lo_toNat]; omega)
    rwa [List.length_map] at hpush

theorem dropR (h : c.Shows s) (hrs : s.rs = r :: rs) : c.dropR.Shows { s with rs } := by
  obtain ⟨⟨halike, hlists⟩, h10, hjump, h14, h15, hfits, htop, hbelow, hcalls⟩ := h
  rw [Forth.Fits, hrs] at hfits
  rw [hrs] at h15 hcalls
  refine ⟨⟨halike, hlists⟩, h10, hjump, h14, ?_, ⟨hfits.1, Nat.le_of_succ_le hfits.2⟩, htop, hbelow,
    hcalls.2⟩
  show c.r15 - CELL_BYTES = _
  rw [h15]
  exact ofNat_pred _

/-- The item under the top is replaced. -/
theorem with_second (h : c.Shows s) (hds : s.ds = a :: b :: ds) (v : Cell) :
    { c with mem := store32 c.mem (dstack_lo + c.r14) v }.Shows { s with ds := a :: v :: ds } := by
  obtain ⟨⟨halike, hlists⟩, h10, hjump, h14, h15, hfits, htop, hbelow, hcalls⟩ := h
  rw [hds] at h14 hbelow htop
  have hlength : ds.length + 2 ≤ 63 := by
    have hlength := hfits.1
    rwa [hds] at hlength
  have hrs := hfits.2
  rw [Forth.rstack_items] at hrs
  have haddr : dstack_lo + c.r14 = dstack_lo + 4 + BitVec.ofNat 32 (4 * (ds.length + 1)) := by
    rw [h14, second_addr]
    rfl
  have htoNat := dstack_toNat (n := ds.length + 1 + 1) hlength
  rw [← second_addr] at htoNat
  refine ⟨⟨?_, hlists⟩, h10, hjump, h14, h15, ⟨hlength, hfits.2⟩, htop, ?_, ?_⟩
  · show Alike (store32 c.mem (dstack_lo + c.r14) v) s.mem
    rw [haddr]
    exact halike.stored (by omega) (by omega)
  · show Cells (store32 c.mem (dstack_lo + c.r14) v) (dstack_lo + 4) (v :: ds)
    rw [haddr]
    refine Cells.push hbelow.2 ?_
    rw [second_toNat]
    omega
  · show Cells (store32 c.mem (dstack_lo + c.r14) v) rstack_lo (s.rs.map Ip.addr)
    rw [haddr]
    refine hcalls.stored (by omega) (.inl ?_) ?_ <;> rw [List.length_map, rstack_lo_toNat] <;> omega

/-- The top of the return stack is replaced. -/
theorem with_topr (h : c.Shows s) (hrs : s.rs = r :: rs) (ip : Ip) :
    { c with mem := store32 c.mem (rstack_lo + c.r15) ip.addr }.Shows { s with rs := ip :: rs } := by
  obtain ⟨⟨halike, hlists⟩, h10, hjump, h14, h15, hfits, htop, hbelow, hcalls⟩ := h
  rw [hrs] at h15 hcalls
  have hlength : rs.length + 1 ≤ 31 := by
    have hlength := hfits.2
    rwa [hrs] at hlength
  have hds := hfits.1
  rw [Forth.dstack_items] at hds
  have htoNat := rstack_toNat (n := rs.length + 1) hlength
  have haddr : rstack_lo + c.r15 = rstack_lo + BitVec.ofNat 32 (4 * (rs.length + 1)) := by
    rw [h15]
    rfl
  refine ⟨⟨?_, hlists⟩, h10, hjump, h14, h15, ⟨hfits.1, hlength⟩, htop, ?_, ?_⟩
  · show Alike (store32 c.mem (rstack_lo + c.r15) ip.addr) s.mem
    rw [haddr]
    exact halike.stored (by omega) (by omega)
  · show Cells (store32 c.mem (rstack_lo + c.r15) ip.addr) (dstack_lo + 4) s.ds.tail
    rw [haddr]
    refine hbelow.stored (by omega) (.inr ?_) ?_ <;> rw [second_toNat]
    · omega
    · rw [List.length_tail]
      omega
  · show Cells (store32 c.mem (rstack_lo + c.r15) ip.addr) rstack_lo (ip.addr :: rs.map Ip.addr)
    rw [haddr]
    have hpush := Cells.push (v := ip.addr) hcalls.2 (by rw [List.length_map, rstack_lo_toNat]; omega)
    rwa [List.length_map] at hpush

/-- Memory changes, but not in the areas of the stacks and not in the lists. -/
theorem with_mem {m m' : Memory 32} (h : c.Shows s) (halike : Alike m m')
    (hstacks : ∀ b, stacked b = true → m b = c.mem b) (hfixed : ∀ b, fixed b = true → m' b = s.mem b) :
    { c with mem := m }.Shows { s with mem := m' } := by
  obtain ⟨⟨-, hlists⟩, h10, hjump, h14, h15, hfits, htop, hbelow, hcalls⟩ := h
  have hds := hfits.1
  have hrs := hfits.2
  rw [Forth.dstack_items] at hds
  rw [Forth.rstack_items] at hrs
  refine ⟨⟨halike, hlists.kept hfixed⟩, h10, hjump, h14, h15, hfits, htop, ?_, ?_⟩
  · have htail := List.length_tail (l := s.ds)
    refine hbelow.kept (by rw [second_toNat]; omega) fun b hlo hhi => hstacks b (stacked_iff.mpr ?_)
    rw [second_toNat] at hlo hhi
    omega
  · have hmap : (s.rs.map Ip.addr).length = s.rs.length := List.length_map _
    refine hcalls.kept (by rw [rstack_lo_toNat]; omega) fun b hlo hhi => hstacks b (stacked_iff.mpr ?_)
    rw [rstack_lo_toNat] at hlo hhi
    omega

end Shows

end Cpu

end Allwinner.Scp
