import Allwinner.Scp.Structures
import Allwinner.Scp.Vocabulary

/-!
# The words that compile control structures

Each appends half words at the compile pointer. The address of a branch that is still to come
stays on the data stack, and `compile_then` stores the target where it is missing.
-/

namespace Allwinner.Scp

open Library Memory
open Forth hiding ip ds rs mem io jump one two

/-- `hs` is what has been compiled at `a` so far. -/
structure Growing (m : Memory 32) (a : Cell) (hs : List Half) : Prop where
  code : Code m a hs
  cp : cp m = pos a hs.length

/-- Where the compiler writes `n` half words from `a` on. -/
def zone (a : Cell) (n : Nat) : Set Nat := Label.cp.room ∪ Set.Ico a.toNat (a.toNat + 2 * n)

/-- What has been compiled has become `hs`, within `n` half words. -/
structure Compiled (a : Cell) (n : Nat) (m : Memory 32) (hs : List Half) (m' : Memory 32) : Prop where
  growing : Growing m' a hs
  keeps : Keeps (zone a n) m m'

/-- An address on the data stack, as an offset from `start`. -/
def mark (a : Cell) (i : Nat) : Cell := pos a i - start

theorem mark_add (a : Cell) (i : Nat) : mark a i + start = pos a i := BitVec.sub_add_cancel ..

theorem length_flatMap_bytes16 (hs : List Half) : (hs.flatMap bytes16).length = 2 * hs.length := by
  induction hs with
  | nil => rfl
  | cons x hs ih =>
    rw [List.flatMap_cons, List.length_append, length_bytes16, ih, List.length_cons]
    omega

theorem bytes16_load16 (m : Memory 32) (a : Cell) : bytes m a 2 = bytes16 (load16 m a) := by
  rw [load16, bytes16, BitVec.extractLsb'_append_eq_left, BitVec.extractLsb'_append_eq_right]
  rfl

theorem pos_next (a : Cell) (i : Nat) : pos (a + 2) i = pos a (i + 1) := by
  rw [← pos_succ, pos, pos, BitVec.add_assoc, BitVec.add_comm (2 : Cell), ← BitVec.add_assoc]

theorem bytes_eq_of_halves {hs : List Half} (h : ∀ i x, hs[i]? = some x → load16 m (pos a i) = x) :
    bytes m a (2 * hs.length) = hs.flatMap bytes16 := by
  induction hs generalizing a with
  | nil => rfl
  | cons x hs ih =>
    have hx := h 0 x rfl
    rw [pos_zero] at hx
    have hrest := ih (a := a + 2) fun i y hi => by
      rw [pos_next]
      exact h (i + 1) y hi
    rw [List.length_cons, Nat.mul_add, Nat.mul_one, Nat.add_comm, bytes_add, bytes16_load16, hx]
    exact congrArg _ hrest

namespace Growing

variable {m m' : Memory 32} {a : Cell} {hs : List Half}

theorem cp_toNat (h : Growing m a hs) : (Scp.cp m).toNat = a.toNat + 2 * hs.length := by
  rw [h.cp, h.code.pos_toNat (Nat.le_refl _)]

theorem room (h : Growing m a hs) (hfits : a.toNat + 2 * (hs.length + k) ≤ sram_hi) :
    Room m (2 * k) := by
  have hlow := h.code.low
  have hcp := h.cp_toNat
  exact ⟨by omega, by omega⟩

theorem even (h : Growing m a hs) : (Scp.cp m).toNat % 2 = 0 := by
  have haligned := h.code.aligned
  rw [h.cp_toNat]
  omega

/-- The next half words are appended. -/
theorem append (h : Growing m a hs) (ks : List Half) (hn : a.toNat + 2 * n ≤ sram_hi)
    (hfits : hs.length + ks.length ≤ n) (happ : Appended m (ks.flatMap bytes16) m') :
    Compiled a n m (hs ++ ks) m' := by
  have hlen := length_flatMap_bytes16 ks
  have hlow := h.code.low
  rw [bss_end_toNat] at hlow
  have hcp := h.cp_toNat
  unfold sram_hi at hn
  have hkeeps := happ.keeps
  rw [growth, hlen, hcp] at hkeeps
  refine ⟨⟨⟨h.code.aligned, h.code.low, ?_, ?_⟩, ?_⟩, hkeeps.mono ?_⟩
  · rw [List.length_append]
    unfold sram_hi
    omega
  · have hnew := happ.bytes
    rw [hlen, h.cp, pos] at hnew
    rw [List.length_append, Nat.mul_add, bytes_add, hnew, List.flatMap_append, hkeeps.bytes (by omega),
      h.code.image]
    rintro k hlo hhi (hk | ⟨hk, -⟩)
    · have := (cp_room_bounds hk).2
      omega
    · omega
  · rw [happ.cp, h.cp, hlen, pos, pos, List.length_append, Nat.mul_add, BitVec.ofNat_add, BitVec.add_assoc]
  · rintro k (hk | ⟨hlo, hhi⟩)
    · exact .inl hk
    · exact .inr ⟨by omega, by omega⟩

/-- A half word that was compiled is replaced. -/
theorem patch (h : Growing m a hs) (hn : a.toNat + 2 * n ≤ sram_hi) (hfits : hs.length ≤ n)
    (hi : i < hs.length) (x : Half) : Compiled a n m (hs.set i x) (store16 m (pos a i) x) := by
  have hlow := h.code.low
  have hhigh := h.code.high
  rw [bss_end_toNat] at hlow
  unfold sram_hi at hhigh hn
  have hpos := h.code.pos_toNat (Nat.le_of_lt hi)
  have hkeeps := store16_keeps (m := m) (a := pos a i) x (by omega)
  rw [hpos] at hkeeps
  refine ⟨⟨⟨h.code.aligned, h.code.low, ?_, bytes_eq_of_halves fun j y hj => ?_⟩, ?_⟩, hkeeps.mono ?_⟩
  · rw [List.length_set]
    exact h.code.high
  · have hjlt := (List.getElem?_eq_some_iff.mp hj).1
    rw [List.length_set] at hjlt
    rw [List.getElem?_set] at hj
    split at hj
    · rename_i heq
      subst heq
      rw [load16_store16 _ (by omega), Option.some.inj hj]
    · rename_i hne
      have hposj := h.code.pos_toNat (Nat.le_of_lt hjlt)
      rw [hkeeps.load16 (by omega), h.code.half hj]
      rintro k hlo hhi ⟨hk, hk'⟩
      omega
  · rw [List.length_set, ← h.cp]
    refine Label.kept hkeeps (by decide) fun k hk hmem => ?_
    have := (cp_room_bounds hmem).2
    have := hk.1
    omega
  · rintro k ⟨hlo, hhi⟩
    exact .inr ⟨by omega, by omega⟩

end Growing

theorem Compiled.refl (h : Growing m a hs) : Compiled a n m hs m := ⟨h, .refl⟩

theorem Compiled.trans (h : Compiled a n m hs m') (h' : Compiled a n m' hs' m'') :
    Compiled a n m hs' m'' := ⟨h'.growing, h.keeps.trans h'.keeps⟩

section Words

variable [Board] [Sram] {m : Memory 32} {a : Cell} {n : Nat} {hs : List Half}

theorem here_growing (h : Growing m a hs) : Does .here m [] [mark a hs.length] m := by
  have hhere := here_does (m := m)
  rw [h.cp] at hhere
  exact hhere

theorem compile_xta_growing (h : Growing m a hs) (hn : a.toNat + 2 * n ≤ sram_hi)
    (hfits : hs.length + 1 ≤ n) (x : Cell) :
    ∃ m', Does .compile_xta m [x] [] m' ∧ Compiled a n m (hs ++ [x.setWidth 16]) m' := by
  obtain ⟨m', hdoes, happ⟩ := compile_xta_appends (h.room (k := 1) (by omega)) h.even x
  exact ⟨m', hdoes, h.append [x.setWidth 16] hn hfits happ⟩

theorem compile_cell_growing (h : Growing m a hs) (hn : a.toNat + 2 * n ≤ sram_hi)
    (hfits : hs.length + 2 ≤ n) (v : Cell) : ∃ m', Does .compile_cell m [v] [] m' ∧
      Compiled a n m (hs ++ [v.extractLsb' 16 16, v.extractLsb' 0 16]) m' := by
  obtain ⟨m', hdoes, happ⟩ := compile_cell_appends (h.room (k := 2) (by omega)) h.even v
  exact ⟨m', hdoes, h.append [v.extractLsb' 16 16, v.extractLsb' 0 16] hn hfits happ⟩

omit [Sram] in
theorem zero_does : Does .zero m [] [0] m := .of_leads rfl fun _ _ _ _ => run_leads (n := 2) rfl

/-- A fixed token followed by `compile_xta`, as two tokens of a list. -/
theorem compile_token_leads {w l : Label} {k : Nat} (h : Growing m a hs) (hn : a.toNat + 2 * n ≤ sram_hi)
    (hfits : hs.length + 1 ≤ n) (hk : w.list[k]? = some (.xtalit l))
    (hk' : w.list[k + 1]? = some (.xt .compile_xta)) :
    ∃ m', Compiled a n m (hs ++ [l.offset]) m' ∧ ∀ st rs io,
      Leads ⟨.rom w k, st, rs, m, io, none⟩ ⟨.rom w (k + 2), st, rs, m', io, none⟩ := by
  obtain ⟨m', hdoes, hcompiled⟩ := compile_xta_growing h hn hfits (l.offset.setWidth 32)
  rw [show (l.offset.setWidth 32).setWidth 16 = l.offset by
    rw [BitVec.setWidth_setWidth_of_le _ (by decide), BitVec.setWidth_eq]] at hcompiled
  refine ⟨m', hcompiled, fun st rs io => .trans (.single ?_) (hdoes.at hk')⟩
  simp [Steps, act, hk, token, pushd]

theorem compile_branch_does {w l : Label} (hw : w = .compile_qbranch ∧ l = .qbranch ∨
    w = .compile_branch ∧ l = .branch) (h : Growing m a hs) (hn : a.toNat + 2 * n ≤ sram_hi)
    (hfits : hs.length + 1 ≤ n) :
    ∃ m', Does w m [] [] m' ∧ Compiled a n m (hs ++ [l.offset]) m' := by
  have hlist : w.list = Label.XT [.xtalit l, Label.compile_xta] ∧ w.prim? = none := by
    obtain ⟨rfl, rfl⟩ | ⟨rfl, rfl⟩ := hw <;> exact ⟨rfl, rfl⟩
  obtain ⟨m', hcompiled, hleads⟩ := compile_token_leads (w := w) (k := 0) (l := l) h hn hfits
    (by rw [hlist.1]; rfl) (by rw [hlist.1]; rfl)
  refine ⟨m', .of_leads hlist.2 fun ip st rs io => (hleads _ _ _).trans ?_, hcompiled⟩
  obtain ⟨rfl, rfl⟩ | ⟨rfl, rfl⟩ := hw <;> exact run_leads (n := 1) rfl

/-- A branch whose target is still missing, its place left on the stack. -/
theorem compile_open_leads {w c l : Label} {k : Nat} (hc : c = .compile_qbranch ∧ l = .qbranch ∨
    c = .compile_branch ∧ l = .branch) (h : Growing m a hs) (hn : a.toNat + 2 * n ≤ sram_hi)
    (hfits : hs.length + 2 ≤ n) (hk : (w.list.drop k).take 4 = [.xt c, .xt .here, .xt .zero, .xt .compile_xta]) :
    ∃ m', Compiled a n m (hs ++ [l.offset, 0]) m' ∧ ∀ st rs io,
      Leads ⟨.rom w k, st, rs, m, io, none⟩
        ⟨.rom w (k + 4), mark a (hs.length + 1) :: st, rs, m', io, none⟩ := by
  have hget (i : Nat) (hi : i < 4) : w.list[k + i]? =
      [Tok.xt c, .xt .here, .xt .zero, .xt .compile_xta][i]? := by
    rw [← hk, List.getElem?_take_of_lt hi, List.getElem?_drop]
  obtain ⟨m₁, hbranch, hm₁⟩ := compile_branch_does hc h hn (by omega)
  have hhere := here_growing hm₁.growing
  rw [List.length_append, List.length_singleton] at hhere
  obtain ⟨m₂, hzero, hm₂⟩ := compile_xta_growing hm₁.growing hn
    (by rw [List.length_append, List.length_singleton]; omega) 0
  rw [List.append_assoc] at hm₂
  refine ⟨m₂, hm₁.trans hm₂, fun st rs io => ?_⟩
  calc
    Leads ⟨.rom w k, st, rs, m, io, none⟩ ⟨.rom w (k + 1), st, rs, m₁, io, none⟩ :=
      hbranch.at (hget 0 (by decide))
    Leads _ ⟨.rom w (k + 2), mark a (hs.length + 1) :: st, rs, m₁, io, none⟩ :=
      hhere.at (hget 1 (by decide))
    Leads _ ⟨.rom w (k + 3), 0 :: mark a (hs.length + 1) :: st, rs, m₁, io, none⟩ :=
      (zero_does (m := m₁)).at (hget 2 (by decide))
    Leads _ _ := hzero.at (hget 3 (by decide))

theorem compile_if_does (h : Growing m a hs) (hn : a.toNat + 2 * n ≤ sram_hi) (hfits : hs.length + 2 ≤ n) :
    ∃ m', Does .compile_if m [] [mark a (hs.length + 1)] m' ∧
      Compiled a n m (hs ++ [Label.qbranch.offset, 0]) m' := by
  obtain ⟨m', hcompiled, hleads⟩ :=
    compile_open_leads (w := .compile_if) (k := 0) (.inl ⟨rfl, rfl⟩) h hn hfits rfl
  exact ⟨m', .of_leads rfl fun ip st rs io => (hleads ..).trans (run_leads (n := 1) rfl), hcompiled⟩

/-- The missing target is the end of what has been compiled. -/
theorem compile_then_does (h : Growing m a hs) (hn : a.toNat + 2 * n ≤ sram_hi) (hfits : hs.length ≤ n)
    (hi : i < hs.length) : ∃ m', Does .compile_then m [mark a i] [] m' ∧
      Compiled a n m (hs.set i (xta (pos a hs.length))) m' := by
  have hadd := mark_add a i
  have haccess := h.code.storable hi
  refine ⟨_, .of_leads rfl fun ip st rs io => ?_, h.patch hn hfits hi (xta (pos a hs.length))⟩
  calc
    Leads ⟨.rom .compile_then 0, mark a i :: st, ip :: rs, m, io, none⟩
      ⟨.rom .compile_then 1, mark a hs.length :: mark a i :: st, ip :: rs, m, io, none⟩ :=
        (here_growing h).at rfl
    Leads _ ⟨.rom .compile_then 4, pos a i :: mark a hs.length :: st, ip :: rs, m, io, none⟩ := by
      rw [← hadd]
      exact run_leads (n := 8) rfl
    Leads _ ⟨.rom .compile_then 5, st, ip :: rs, store16 m (pos a i) (xta (pos a hs.length)), io, none⟩ :=
      (xtastore_does haccess).at rfl
    Leads _ _ := run_leads (n := 1) rfl

theorem compile_begin_does (h : Growing m a hs) : Does .compile_begin m [] [mark a hs.length] m :=
  .of_leads rfl fun _ _ _ _ => ((here_growing h).at rfl).trans (run_leads (n := 1) rfl)

/-- The end of a loop without a counter. -/
theorem compile_back_does {w c l : Label} (hw : w = .compile_until ∧ c = .compile_qbranch ∧ l = .qbranch ∨
    w = .compile_again ∧ c = .compile_branch ∧ l = .branch) (h : Growing m a hs)
    (hn : a.toNat + 2 * n ≤ sram_hi) (hfits : hs.length + 2 ≤ n) (i : Nat) :
    ∃ m', Does w m [mark a i] [] m' ∧ Compiled a n m (hs ++ [l.offset, xta (pos a i)]) m' := by
  have hc : c = .compile_qbranch ∧ l = .qbranch ∨ c = .compile_branch ∧ l = .branch :=
    hw.imp And.right And.right
  obtain ⟨m₁, hbranch, hm₁⟩ := compile_branch_does hc h hn (by omega)
  obtain ⟨m₂, hxta, hm₂⟩ := compile_xta_growing hm₁.growing hn
    (by rw [List.length_append, List.length_singleton]; omega) (mark a i)
  rw [List.append_assoc] at hm₂
  refine ⟨m₂, ?_, hm₁.trans hm₂⟩
  obtain ⟨rfl, rfl, rfl⟩ | ⟨rfl, rfl, rfl⟩ := hw
  all_goals exact .of_leads rfl fun _ _ _ _ =>
    (hbranch.at rfl).trans ((hxta.at rfl).trans (run_leads (n := 1) rfl))

theorem compile_for_does (h : Growing m a hs) (hn : a.toNat + 2 * n ≤ sram_hi) (hfits : hs.length + 1 ≤ n) :
    ∃ m', Does .compile_for m [] [mark a (hs.length + 1)] m' ∧
      Compiled a n m (hs ++ [Label.tor.offset]) m' := by
  obtain ⟨m', hcompiled, hleads⟩ := compile_token_leads (w := .compile_for) (k := 0) (l := .tor) h hn hfits
    rfl rfl
  have hhere := here_growing hcompiled.growing
  rw [List.length_append, List.length_singleton] at hhere
  exact ⟨m', .of_leads rfl fun _ _ _ _ => (hleads ..).trans ((hhere.at rfl).trans (run_leads (n := 1) rfl)),
    hcompiled⟩

theorem compile_next_does (h : Growing m a hs) (hn : a.toNat + 2 * n ≤ sram_hi) (hfits : hs.length + 2 ≤ n)
    (i : Nat) : ∃ m', Does .compile_next m [mark a i] [] m' ∧
      Compiled a n m (hs ++ [Label.next.offset, xta (pos a i)]) m' := by
  obtain ⟨m₁, hm₁, hleads⟩ := compile_token_leads (w := .compile_next) (k := 0) (l := .next) h hn
    (by omega) rfl rfl
  obtain ⟨m₂, hxta, hm₂⟩ := compile_xta_growing hm₁.growing hn
    (by rw [List.length_append, List.length_singleton]; omega) (mark a i)
  rw [List.append_assoc] at hm₂
  exact ⟨m₂, .of_leads rfl fun _ _ _ _ => (hleads ..).trans ((hxta.at rfl).trans (run_leads (n := 1) rfl)),
    hm₁.trans hm₂⟩

/-- The loop is entered at the end of its body, and the next rounds start here. -/
theorem compile_aft_does (h : Growing m a hs) (hn : a.toNat + 2 * n ≤ sram_hi) (hfits : hs.length + 2 ≤ n)
    (v : Cell) : ∃ m', Does .compile_aft m [v] [mark a (hs.length + 1), mark a (hs.length + 2)] m' ∧
      Compiled a n m (hs ++ [Label.branch.offset, 0]) m' := by
  obtain ⟨m', hcompiled, hleads⟩ :=
    compile_open_leads (w := .compile_aft) (k := 1) (.inr ⟨rfl, rfl⟩) h hn hfits rfl
  have hhere := here_growing hcompiled.growing
  rw [List.length_append, show [Label.branch.offset, 0].length = 2 from rfl] at hhere
  refine ⟨m', .of_leads rfl fun ip st rs io => ?_, hcompiled⟩
  calc
    Leads ⟨.rom .compile_aft 0, v :: st, ip :: rs, m, io, none⟩
      ⟨.rom .compile_aft 1, st, ip :: rs, m, io, none⟩ := run_leads (n := 1) rfl
    Leads _ ⟨.rom .compile_aft 5, mark a (hs.length + 1) :: st, ip :: rs, m', io, none⟩ := hleads ..
    Leads _ ⟨.rom .compile_aft 6, mark a (hs.length + 2) :: mark a (hs.length + 1) :: st, ip :: rs, m', io,
      none⟩ := hhere.at rfl
    Leads _ _ := run_leads (n := 2) rfl

end Words

end Allwinner.Scp
