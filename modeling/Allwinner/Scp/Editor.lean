import Allwinner.Scp.Formatting
import Allwinner.Scp.Evaluate

/-!
# The line editor of the console

The terminal input buffer holds a counted string. `do_uart` takes the next character from
the UART and edits that string, or has it interpreted at the end of a line.
-/

namespace Allwinner.Scp

open Library Memory
open Forth hiding ip ds rs mem io jump one two

-- ---------------------------------------------------------------------------
-- The terminal input buffer
-- ---------------------------------------------------------------------------

def tib_capacity : Nat := 127

def tib_cells : Set Nat := Set.Ico tib_lo.toNat tib_hi.toNat

theorem tib_lo_toNat : tib_lo.toNat = 73980 := by decide
theorem tib_hi_toNat : tib_hi.toNat = 74108 := by decide

/-- The buffer holds `s`. -/
structure Line (m : Memory 32) (s : List Byte) : Prop where
  length : s.length ≤ tib_capacity
  count : m tib_lo = BitVec.ofNat 8 s.length
  chars : bytes m (tib_lo + 1) s.length = s

/-- The characters that end a line. -/
def EndsLine (c : Cell) : Prop := c = 13 ∨ c = 0x0a

/-- The characters that take the last one back. -/
def Erases (c : Cell) : Prop := c = 8 ∨ c = 127

/-- The shortcut for reset. -/
def reset_char : Cell := 18

instance (c : Cell) : Decidable (EndsLine c) := inferInstanceAs (Decidable (_ ∨ _))
instance (c : Cell) : Decidable (Erases c) := inferInstanceAs (Decidable (_ ∨ _))

def appended (s : List Byte) (c : Cell) : List Byte :=
  if s.length < tib_capacity then s ++ [c.setWidth 8] else s

def edited (s : List Byte) (c : Cell) : List Byte := if Erases c then s.dropLast else appended s c

section Memory

variable {m m' : Memory 32} {s : List Byte}

/-- The count as it is stored. -/
theorem byte_ofNat (n : Nat) : (BitVec.ofNat 32 n).setWidth 8 = BitVec.ofNat 8 n := by
  apply BitVec.eq_of_toNat_eq
  simp

theorem tib_text_toNat : (tib_lo + 1).toNat = 73981 := by decide

theorem Line.count_toNat (h : Line m s) : ((m tib_lo).setWidth 32 : Cell).toNat = s.length := by
  have := h.length
  unfold tib_capacity at this
  rw [h.count]
  simp
  omega

theorem Line.kept (h : Line m s) (hkeeps : Keeps W m m') (hW : ∀ n ∈ W, n ∉ tib_cells) :
    Line m' s := by
  have hlen := h.length
  unfold tib_capacity at hlen
  refine ⟨h.length, (hkeeps _ fun hn => hW _ hn ⟨?_, ?_⟩).trans h.count, (hkeeps.bytes ?_ ?_).trans h.chars⟩
  · exact Nat.le_refl _
  · decide
  · rw [tib_text_toNat]
    omega
  · intro k hlo hhi hk
    rw [tib_text_toNat] at hlo hhi
    exact hW k hk ⟨by rw [tib_lo_toNat]; omega, by rw [tib_hi_toNat]; omega⟩

/-- A character behind the line, and the count. -/
def inserted (m : Memory 32) (n : Nat) (c : Byte) : Memory 32 :=
  store8 (store8 m (tib_lo + 1 + BitVec.ofNat 32 n) c) tib_lo (BitVec.ofNat 8 (n + 1))

theorem tib_text_add (hn : n < tib_capacity) : (tib_lo + 1 + BitVec.ofNat 32 n).toNat = 73981 + n := by
  unfold tib_capacity at hn
  rw [toNat_add_ofNat (by rw [tib_text_toNat]; omega), tib_text_toNat]

theorem inserted_keeps (hn : n < tib_capacity) : Keeps tib_cells m (inserted m n c) := by
  have htext := tib_text_add hn
  unfold tib_capacity at hn
  refine ((store8_keeps _).union (store8_keeps _)).mono ?_
  rintro k (⟨hlo, hhi⟩ | ⟨hlo, hhi⟩)
  · rw [htext] at hlo hhi
    exact ⟨by rw [tib_lo_toNat]; omega, by rw [tib_hi_toNat]; omega⟩
  · rw [tib_lo_toNat] at hlo hhi
    exact ⟨by rw [tib_lo_toNat]; omega, by rw [tib_hi_toNat]; omega⟩

theorem Line.inserted (h : Line m s) (hs : s.length < tib_capacity) :
    Line (inserted m s.length c) (s ++ [c]) := by
  have htext := tib_text_add hs
  refine ⟨?_, ?_, ?_⟩
  · rw [List.length_append]
    exact hs
  · rw [Scp.inserted, store8_same, List.length_append]
    rfl
  · have hcount : Keeps (Set.Ico tib_lo.toNat (tib_lo.toNat + 1))
        (store8 m (tib_lo + 1 + BitVec.ofNat 32 s.length) c) (Scp.inserted m s.length c) := store8_keeps _
    unfold tib_capacity at hs
    rw [List.length_append, List.length_singleton, hcount.bytes (by rw [tib_text_toNat]; omega) fun k hlo _ hk => by
      have := hk.2
      rw [tib_lo_toNat] at this
      rw [tib_text_toNat] at hlo
      omega]
    rw [bytes_add, bytes_store8, (store8_keeps c).bytes (by rw [tib_text_toNat]; omega) fun k _ hhi hk => by
      have := hk.1
      rw [htext] at this
      rw [tib_text_toNat] at hhi
      omega]
    rw [h.chars]

/-- The count of a line one shorter. -/
def shortened (m : Memory 32) (n : Nat) : Memory 32 := store8 m tib_lo (BitVec.ofNat 8 n)

theorem shortened_keeps (m : Memory 32) (n : Nat) : Keeps tib_cells m (shortened m n) :=
  (store8_keeps _).mono fun _ h => ⟨h.1, Nat.lt_trans h.2 (by decide)⟩

theorem Line.shortened (h : Line m s) : Line (shortened m (s.length - 1)) s.dropLast := by
  have hlen := h.length
  refine ⟨?_, ?_, ?_⟩
  · rw [List.length_dropLast]
    omega
  · rw [Scp.shortened, store8_same, List.length_dropLast]
  · unfold tib_capacity at hlen
    have hchars : bytes (Scp.shortened m (s.length - 1)) (tib_lo + 1) s.length = s := by
      refine ((store8_keeps _).bytes (by rw [tib_text_toNat]; omega) fun k hlo _ hk => ?_).trans h.chars
      have := hk.2
      rw [tib_lo_toNat] at this
      rw [tib_text_toNat] at hlo
      omega
    rw [List.length_dropLast, ← bytes_take (n := s.length) (Nat.sub_le ..), hchars, List.dropLast_eq_take]

theorem tib_cells_bounds (h : n ∈ tib_cells) : 73980 ≤ n ∧ n < 74108 := h

theorem tib_complete_bounds (h : n ∈ Label.tib_complete.room) : 71212 ≤ n ∧ n < 71216 := h

theorem scratch_bounds (h : n ∈ scratch) : (68100 ≤ n ∧ n < 68104) ∨ (73852 ≤ n ∧ n < 73980) := by
  obtain ⟨hlo, hhi⟩ | ⟨hlo, hhi⟩ := h
  · rw [hld_toNat] at hlo hhi
    exact .inl ⟨hlo, hhi⟩
  · exact .inr ⟨hlo, hhi⟩

end Memory

-- ---------------------------------------------------------------------------
-- Characters
-- ---------------------------------------------------------------------------

section Words

variable [Board] {E : Emitter} {u : Store} {s : List Byte} {c : Cell}

theorem matches_cr_does (c : Cell) : Does .matches_cr m [c] [flag (decide (EndsLine c))] m := by
  have hflag : flag (decide (EndsLine c)) = flag (c == 13) ||| flag (c == 0x0a) := by
    rw [flag_or]
    exact congrArg flag (Bool.decide_or _ _)
  rw [hflag]
  exact .of_leads rfl fun _ _ _ _ => run_leads (n := 12) rfl

theorem matches_bs_does (c : Cell) : Does .matches_bs m [c] [flag (decide (Erases c))] m := by
  have hflag : flag (decide (Erases c)) = flag (c == 8) ||| flag (c == 127) := by
    rw [flag_or]
    exact congrArg flag (Bool.decide_or _ _)
  rw [hflag]
  exact .of_leads rfl fun _ _ _ _ => run_leads (n := 12) rfl

theorem matches_reset_does (c : Cell) : Does .matches_reset m [c] [flag (c == reset_char)] m :=
  .of_leads rfl fun _ _ _ _ => run_leads (n := 5) rfl

/-- The character is no shortcut and does not end the line. -/
def Plain (c : Cell) : Prop := ¬ EndsLine c ∧ c ≠ reset_char

instance (c : Cell) : Decidable (Plain c) := inferInstanceAs (Decidable (_ ∧ _))

/-- What the UART answers to `ask_key`: its status and, if that says so, a character. -/
def Store.answering (u : Store) (inputs : List Cell) : Store := { u with io := { u.io with inputs } }

def received (inputs : List Cell) : Option Cell :=
  if inputs.headD 0 &&& 1 = 0 then none else some (inputs.tail.headD 0)

/-- What `ask_key` leaves on the stack, and of the answers. -/
theorem ask_key_acts (u : Store) (inputs : List Cell) :
    ∃ rest, Acts .ask_key (u.answering inputs) [] ((received inputs).elim [0] fun c => [-1, c])
      (u.answering rest) := by
  by_cases h : inputs.headD 0 &&& 1 = 0
  · have hnone : received inputs = none := if_pos h
    rw [hnone]
    exact ⟨inputs.tail, fun ip ds rs => ⟨_, if_pos h, .refl⟩⟩
  · have hsome : received inputs = some (inputs.tail.headD 0) := if_neg h
    rw [hsome]
    exact ⟨inputs.tail.tail, fun ip ds rs => ⟨_, if_neg h, .refl⟩⟩

-- ---------------------------------------------------------------------------
-- Editing
-- ---------------------------------------------------------------------------

/-- `s` is in the buffer now, and nothing else has changed. -/
structure Edited (E : Emitter) (u : Store) (s : List Byte) (u' : Store) : Prop where
  ready : E.Ready u'
  line : Line u'.mem s
  keeps : Keeps (tib_cells ∪ E.footprint) u.mem u'.mem

/-- The emitter does not rest on the memory of the editor. -/
structure Editor (E : Emitter) : Prop where
  tib : ∀ n ∈ E.footprint, n ∉ tib_cells
  complete : ∀ n ∈ E.footprint, n ∉ Label.tib_complete.room
  scratch : ∀ n ∈ scratch, n ∉ E.footprint

/-- The emitter leaves the line alone, and what comes behind is stored in the buffer. -/
theorem Edited.of_emitted (hE : Editor E) (h : E.Ready u) (cs : List Cell) {m : Memory 32}
    (hkeeps : Keeps tib_cells (E.say u cs).mem m) (hline : Line m s) :
    Edited E u s { E.say u cs with mem := m } := by
  refine ⟨E.frame (E.ready_say h cs) (hkeeps.mono fun n hn hmem => hE.tib n hmem hn), hline, ?_⟩
  exact ((E.keeps_say h cs).union hkeeps).mono fun n hn => hn.symm

/-- The line in the buffer is `s`, and it is not complete. -/
structure Editing (E : Emitter) (u : Store) (s : List Byte) : Prop where
  ready : E.Ready u
  line : Line u.mem s
  idle : load32 u.mem Label.tib_complete.storage = 0

theorem Editing.answering (h : Editing E u s) (inputs : List Cell) :
    Editing E (u.answering inputs) s := ⟨E.frame h.ready .refl, h.line, h.idle⟩

theorem tib_complete_kept (hE : Editor E) (h : Keeps (tib_cells ∪ E.footprint) m m') :
    load32 m' Label.tib_complete.storage = load32 m Label.tib_complete.storage := by
  refine Label.kept h (by decide) ?_
  rintro n (hn | hn) hmem
  · have := tib_cells_bounds hn
    have := tib_complete_bounds hmem
    omega
  · exact hE.complete n hn hmem

variable [Sram]

theorem tib_ram : Visible tib_lo ∧ fixed tib_lo = false :=
  (Writable.behind (n := 1) (by decide) (by decide)).head (by decide)

/-- `tib cat` as two tokens of a list. -/
theorem tib_count {w : Label} {k n : Nat} (hn : n ≤ tib_capacity) (hm : m tib_lo = BitVec.ofNat 8 n)
    (hk : w.list[k]? = some (.xt .tib))
    (hcat : w.list[k + 1]? = some (.xt .cat)) :
    Leads ⟨.rom w k, ds, rs, m, io, none⟩
      ⟨.rom w (k + 2), BitVec.ofNat 32 n :: ds, rs, m, io, none⟩ := by
  have hcount : ((m tib_lo).setWidth 32 : Cell) = BitVec.ofNat 32 n := by
    unfold tib_capacity at hn
    apply BitVec.eq_of_toNat_eq
    rw [hm]
    simp
    omega
  have htib : Does .tib m [] [tib_lo] m := .of_leads rfl fun _ _ _ _ => run_leads (n := 2) rfl
  rw [← hcount]
  exact (htib.at hk).trans ((cat_does tib_ram.1).at hcat)

theorem handle_backspace_acts (hE : Editor E) (h : E.Ready u) (hl : Line u.mem s) :
    ∃ u', Acts .handle_backspace u [] [] u' ∧ Edited E u s.dropLast u' := by
  have hlen := hl.length
  unfold tib_capacity at hlen
  have hstart (ip ds rs) : Leads ⟨.rom .handle_backspace 0, ds, ip :: rs, u.mem, u.io, none⟩
      ⟨.rom .handle_backspace 5, ~~~flag (BitVec.ofNat 32 s.length == (0 : Cell)) :: ds, ip :: rs,
        u.mem, u.io, none⟩ :=
    ((tib_count hl.length hl.count rfl rfl).trans (run_leads (n := 4) rfl)).trans (not_does.at rfl)
  by_cases hs : s = []
  · subst hs
    refine ⟨u, .of_leads rfl fun ip ds rs => ?_, h, hl, .refl⟩
    exact (hstart ip ds rs).trans ((qbranch_taken rfl rfl (by decide)).trans (run_leads (n := 2) rfl))
  · have hpos := List.length_pos_iff.mpr hs
    have hne : (BitVec.ofNat 32 s.length == (0 : Cell)) = false := by
      rw [beq_eq_false_iff_ne]
      intro hzero
      have := congrArg BitVec.toNat hzero
      rw [BitVec.toNat_ofNat, Nat.mod_eq_of_lt (by omega)] at this
      exact absurd this (Nat.ne_of_gt hpos)
    rw [hne] at hstart
    have hsaid := hl.kept (E.keeps_say h [8, 0x20, 8]) hE.tib
    have hcount : BitVec.ofNat 32 s.length - 1 = BitVec.ofNat 32 (s.length - 1) := by
      apply BitVec.eq_of_toNat_eq
      rw [BitVec.toNat_sub, BitVec.toNat_ofNat, BitVec.toNat_ofNat]
      simp
      omega
    refine ⟨_, .of_leads rfl fun ip ds rs => ?_,
      .of_emitted hE h [8, 0x20, 8] (shortened_keeps _ (s.length - 1)) hsaid.shortened⟩
    generalize hw : E.say u [8, 0x20, 8] = w at hsaid ⊢
    calc
      Leads _ _ := hstart ip ds rs
      Leads _ ⟨.rom .handle_backspace 7, 8 :: ds, ip :: rs, u.mem, u.io, none⟩ :=
        (qbranch_passed rfl (by decide)).trans (run_leads (n := 3) rfl)
      Leads _ ⟨.rom .handle_backspace 8, ds, ip :: rs, (E.out u 8).mem, (E.out u 8).io, none⟩ :=
        (E.acts h).at rfl
      Leads _ ⟨.rom .handle_backspace 10, 8 :: ds, ip :: rs, _, _, none⟩ :=
        ((space_acts E (E.ready h)).at rfl).trans (run_leads (n := 3) rfl)
      Leads _ ⟨.rom .handle_backspace 11, ds, ip :: rs, w.mem, w.io, none⟩ := by
        rw [← hw]
        exact (E.acts (E.ready (E.ready h))).at rfl
      Leads _ ⟨.rom .handle_backspace 14, 1 :: BitVec.ofNat 32 s.length :: ds, ip :: rs, w.mem,
        w.io, none⟩ := (tib_count hsaid.length hsaid.count rfl rfl).trans (run_leads (n := 3) rfl)
      Leads _ ⟨.rom .handle_backspace 15, BitVec.ofNat 32 (s.length - 1) :: ds, ip :: rs, w.mem,
        w.io, none⟩ := by
          rw [← hcount]
          exact sub_does.at rfl
      Leads _ ⟨.rom .handle_backspace 16, tib_lo :: BitVec.ofNat 32 (s.length - 1) :: ds, ip :: rs,
        w.mem, w.io, none⟩ := run_leads (n := 3) rfl
      Leads _ ⟨.rom .handle_backspace 17, ds, ip :: rs, shortened w.mem (s.length - 1), w.io,
        none⟩ := by
          rw [shortened, ← byte_ofNat]
          exact (cstore_does tib_ram).at rfl
      Leads _ _ := run_leads (n := 2) rfl

theorem append_to_tib_acts (hE : Editor E) (h : E.Ready u) (hl : Line u.mem s) (c : Cell) :
    ∃ u', Acts .append_to_tib u [c] [] u' ∧ Edited E u (appended s c) u' := by
  have hlen := hl.length
  have hult : (BitVec.ofNat 32 s.length).ult (127 : Cell) = decide (s.length < tib_capacity) := by
    unfold tib_capacity at hlen ⊢
    rw [BitVec.ult, BitVec.toNat_ofNat, Nat.mod_eq_of_lt (by omega)]
    rfl
  have hstart (ip ds rs) : Leads ⟨.rom .append_to_tib 0, c :: ds, ip :: rs, u.mem, u.io, none⟩
      ⟨.rom .append_to_tib 4, flag (decide (s.length < tib_capacity)) :: c :: ds, ip :: rs, u.mem,
        u.io, none⟩ := by
    rw [← hult]
    exact (tib_count hl.length hl.count rfl rfl).trans (run_leads (n := 4) rfl)
  unfold appended
  by_cases hs : s.length < tib_capacity
  · rw [decide_eq_true hs] at hstart
    rw [if_pos hs]
    have hsaid := hl.kept (E.keeps_say h [c]) hE.tib
    refine ⟨_, .of_leads rfl fun ip ds rs => ?_,
      .of_emitted hE h [c] (inserted_keeps hs) (hsaid.inserted hs)⟩
    have hout : E.say u [c] = E.out u c := rfl
    rw [hout] at hsaid ⊢
    have hspot := tib_text_add hs
    unfold tib_capacity at hs
    have hram := (Writable.behind (n := 1) (a := tib_lo + 1 + BitVec.ofNat 32 s.length)
      (by rw [hspot]; omega) (by rw [hspot]; unfold sram_hi; omega)).head (by decide)
    have hcount : store8 (E.out u c).mem (tib_lo + 1 + BitVec.ofNat 32 s.length) (c.setWidth 8) tib_lo =
        BitVec.ofNat 8 s.length := by
      rw [store8_keeps _ tib_lo fun hmem => ?_]
      · exact hsaid.count
      · have := hmem.1
        rw [hspot, tib_lo_toNat] at this
        omega
    calc
      Leads _ _ := hstart ip ds rs
      Leads _ ⟨.rom .append_to_tib 6, c :: c :: ds, ip :: rs, u.mem, u.io, none⟩ :=
        (qbranch_passed rfl (by decide)).trans (run_leads (n := 1) rfl)
      Leads _ ⟨.rom .append_to_tib 7, c :: ds, ip :: rs, (E.out u c).mem, (E.out u c).io, none⟩ :=
        (E.acts h).at rfl
      Leads _ ⟨.rom .append_to_tib 10, (tib_lo + 1) :: c :: c :: ds, ip :: rs, (E.out u c).mem,
        (E.out u c).io, none⟩ := (run_leads (n := 4) rfl).trans (inc_does.at rfl)
      Leads _ ⟨.rom .append_to_tib 12, BitVec.ofNat 32 s.length :: (tib_lo + 1) :: c :: c :: ds,
        ip :: rs, (E.out u c).mem, (E.out u c).io, none⟩ :=
          tib_count hsaid.length hsaid.count rfl rfl
      Leads _ ⟨.rom .append_to_tib 13, (tib_lo + 1 + BitVec.ofNat 32 s.length) :: c :: c :: ds,
        ip :: rs, (E.out u c).mem, (E.out u c).io, none⟩ := run_leads (n := 4) rfl
      Leads _ ⟨.rom .append_to_tib 14, c :: ds, ip :: rs, _, (E.out u c).io, none⟩ :=
        (cstore_does hram).at rfl
      Leads _ ⟨.rom .append_to_tib 16, BitVec.ofNat 32 s.length :: c :: ds, ip :: rs, _,
        (E.out u c).io, none⟩ := tib_count hsaid.length hcount rfl rfl
      Leads _ ⟨.rom .append_to_tib 17, BitVec.ofNat 32 (s.length + 1) :: c :: ds, ip :: rs, _,
        (E.out u c).io, none⟩ := by
          rw [BitVec.ofNat_add]
          exact inc_does.at rfl
      Leads _ ⟨.rom .append_to_tib 18, tib_lo :: BitVec.ofNat 32 (s.length + 1) :: c :: ds, ip :: rs,
        _, (E.out u c).io, none⟩ := run_leads (n := 3) rfl
      Leads _ ⟨.rom .append_to_tib 19, c :: ds, ip :: rs,
        inserted (E.out u c).mem s.length (c.setWidth 8), (E.out u c).io, none⟩ := by
          rw [inserted, ← byte_ofNat]
          exact (cstore_does tib_ram).at rfl
      Leads _ _ := run_leads (n := 3) rfl
  · rw [decide_eq_false hs] at hstart
    rw [if_neg hs]
    refine ⟨u, .of_leads rfl fun ip ds rs => ?_, h, hl, .refl⟩
    exact (hstart ip ds rs).trans ((qbranch_taken rfl rfl rfl).trans (run_leads (n := 3) rfl))

theorem handle_uart_char_acts (hE : Editor E) (h : E.Ready u) (hl : Line u.mem s) (hc : Plain c) :
    ∃ u', Acts .handle_uart_char u [c] [] u' ∧ Edited E u (edited s c) u' := by
  have hstart (ip ds rs) : Leads ⟨.rom .handle_uart_char 0, c :: ds, ip :: rs, u.mem, u.io, none⟩
      ⟨.rom .handle_uart_char 9, flag (decide (Erases c)) :: c :: ds, ip :: rs, u.mem, u.io, none⟩ :=
    calc
      Leads _ ⟨.rom .handle_uart_char 1, c :: c :: ds, ip :: rs, u.mem, u.io, none⟩ :=
        run_leads (n := 1) rfl
      Leads _ ⟨.rom .handle_uart_char 2, flag (decide (EndsLine c)) :: c :: ds, ip :: rs, u.mem,
        u.io, none⟩ := (matches_cr_does c).at rfl
      Leads _ ⟨.rom .handle_uart_char 6, c :: ds, ip :: rs, u.mem, u.io, none⟩ :=
        qbranch_taken rfl rfl (by rw [decide_eq_false hc.1]; rfl)
      Leads _ ⟨.rom .handle_uart_char 8, c :: c :: ds, ip :: rs, u.mem, u.io, none⟩ :=
        run_leads (n := 2) rfl
      Leads _ _ := (matches_bs_does c).at rfl
  unfold edited
  by_cases herase : Erases c
  · rw [decide_eq_true herase] at hstart
    rw [if_pos herase]
    obtain ⟨u', hacts, hedited⟩ := handle_backspace_acts hE h hl
    refine ⟨u', .of_leads rfl fun ip ds rs => ?_, hedited⟩
    calc
      Leads _ _ := hstart ip ds rs
      Leads _ ⟨.rom .handle_uart_char 11, ds, ip :: rs, u.mem, u.io, none⟩ :=
        (qbranch_passed rfl (by decide)).trans (run_leads (n := 1) rfl)
      Leads _ ⟨.rom .handle_uart_char 12, ds, ip :: rs, u'.mem, u'.io, none⟩ := hacts.at rfl
      Leads _ _ := run_leads (n := 1) rfl
  · rw [decide_eq_false herase] at hstart
    rw [if_neg herase]
    obtain ⟨u', hacts, hedited⟩ := append_to_tib_acts hE h hl c
    refine ⟨u', .of_leads rfl fun ip ds rs => ?_, hedited⟩
    calc
      Leads _ _ := hstart ip ds rs
      Leads _ ⟨.rom .handle_uart_char 15, c :: c :: ds, ip :: rs, u.mem, u.io, none⟩ :=
        (qbranch_taken rfl rfl rfl).trans (run_leads (n := 2) rfl)
      Leads _ ⟨.rom .handle_uart_char 16, flag (c == reset_char) :: c :: ds, ip :: rs, u.mem, u.io,
        none⟩ := (matches_reset_does c).at rfl
      Leads _ ⟨.rom .handle_uart_char 21, c :: ds, ip :: rs, u.mem, u.io, none⟩ :=
        (qbranch_taken rfl rfl (by rw [beq_eq_false_iff_ne.mpr hc.2]; rfl)).trans (run_leads (n := 1) rfl)
      Leads _ ⟨.rom .handle_uart_char 22, ds, ip :: rs, u'.mem, u'.io, none⟩ := hacts.at rfl
      Leads _ _ := run_leads (n := 1) rfl

-- ---------------------------------------------------------------------------
-- One call of do_uart after the other
-- ---------------------------------------------------------------------------

theorem handle_uart_input_acts (hE : Editor E) (h : Editing E u s) (inputs : List Cell)
    (hplain : ∀ c ∈ received inputs, Plain c) :
    ∃ u', Acts .handle_uart_input (u.answering inputs) [] [] u' ∧
      Edited E u ((received inputs).elim s (edited s)) u' := by
  obtain ⟨rest, hkey⟩ := ask_key_acts u inputs
  have hrest := h.answering rest
  cases hc : received inputs with
  | none =>
    rw [hc] at hkey
    refine ⟨u.answering rest, .of_leads rfl fun ip ds rs => ?_, hrest.ready, hrest.line, .refl⟩
    exact (hkey.at rfl).trans ((qbranch_taken rfl rfl rfl).trans (run_leads (n := 2) rfl))
  | some c =>
    rw [hc] at hkey
    obtain ⟨u', hacts, hedited⟩ := handle_uart_char_acts hE hrest.ready hrest.line (hplain c hc)
    refine ⟨u', .of_leads rfl fun ip ds rs => ?_, hedited.ready, hedited.line, hedited.keeps⟩
    calc
      Leads _ ⟨.rom .handle_uart_input 1, -1 :: c :: ds, ip :: rs, _, _, none⟩ := hkey.at rfl
      Leads _ ⟨.rom .handle_uart_input 2, c :: ds, ip :: rs, _, _, none⟩ :=
        qbranch_passed rfl (by decide)
      Leads _ ⟨.rom .handle_uart_input 3, ds, ip :: rs, u'.mem, u'.io, none⟩ := hacts.at rfl
      Leads _ _ := run_leads (n := 2) rfl

theorem do_uart_acts (hE : Editor E) (h : Editing E u s) (inputs : List Cell)
    (hplain : ∀ c ∈ received inputs, Plain c) :
    ∃ u', Acts .do_uart (u.answering inputs) [] [] u' ∧
      Editing E u' ((received inputs).elim s (edited s)) ∧
      Keeps (tib_cells ∪ E.footprint) u.mem u'.mem := by
  obtain ⟨u', hacts, hready, hline, hkeeps⟩ := handle_uart_input_acts hE h inputs hplain
  have hidle := (tib_complete_kept hE hkeeps).trans h.idle
  refine ⟨u', .of_leads rfl fun ip ds rs => ?_, ⟨hready, hline, hidle⟩, hkeeps⟩
  calc
    Leads _ ⟨.rom .do_uart 1, ds, ip :: rs, u'.mem, u'.io, none⟩ := hacts.at rfl
    Leads _ ⟨.rom .try_eval_tib 0, ds, .rom .do_uart 2 :: ip :: rs, u'.mem, u'.io, none⟩ :=
      run_leads (n := 1) rfl
    Leads _ ⟨.rom .try_eval_tib 2, 0 :: ds, .rom .do_uart 2 :: ip :: rs, u'.mem, u'.io, none⟩ := by
      rw [← hidle]
      exact (Label.Var.of_isVar rfl).fetch rfl rfl
    Leads _ _ := (qbranch_taken rfl rfl rfl).trans (run_leads (n := 3) rfl)

/-- Calls of `do_uart`, each with the answers of the UART to it, on a stack `st`. -/
inductive Polls (st : List Cell) : Store → List (List Cell) → Store → Prop
  | done {u : Store} : Polls st u [] u
  | poll {u v w : Store} (h : Returns .do_uart (u.answering inputs) st v st)
    (hbounded : ReturnsBounded .do_uart (u.answering inputs) st v st) (hrest : Polls st v rest w) :
    Polls st u (inputs :: rest) w

theorem polls (hE : Editor E) (h : Editing E u s) (st : List Cell) (calls : List (List Cell))
    (hplain : ∀ c ∈ calls.filterMap received, Plain c) :
    ∃ w, Polls st u calls w ∧ Editing E w ((calls.filterMap received).foldl edited s) ∧
      Keeps (tib_cells ∪ E.footprint) u.mem w.mem := by
  induction calls generalizing u s with
  | nil => exact ⟨u, .done, h, .refl⟩
  | cons inputs calls ih =>
    have hfirst : ∀ c ∈ received inputs, Plain c := fun c hc =>
      hplain c (List.mem_filterMap.mpr ⟨inputs, List.mem_cons_self, hc⟩)
    obtain ⟨v, hacts, hv, hkeeps⟩ := do_uart_acts hE h inputs hfirst
    obtain ⟨w, hpolls, hw, hkeeps'⟩ := ih hv fun c hc => by
      obtain ⟨i, hi, hic⟩ := List.mem_filterMap.mp hc
      exact hplain c (List.mem_filterMap.mpr ⟨i, List.mem_cons_of_mem _ hi, hic⟩)
    refine ⟨w, .poll (hacts.returns rfl st) (hacts.returns rfl st).bounded hpolls, ?_, hkeeps.trans hkeeps'⟩
    cases hc : received inputs with
    | none =>
      rw [hc] at hw
      rwa [List.filterMap_cons_none hc]
    | some c =>
      rw [hc] at hw
      rwa [List.filterMap_cons_some hc, List.foldl_cons]

-- ---------------------------------------------------------------------------
-- The start and the end of a line
-- ---------------------------------------------------------------------------

theorem show_prompt_returns (hE : Editor E) (h : Console E u)
    (hbase : 2 ≤ (load32 u.mem Label.base.storage).toNat) (st : List Cell) :
    ∃ u', Returns .show_prompt u st u' st ∧ E.Ready u' ∧
      Keeps (scratch ∪ E.footprint) u.mem u'.mem := by
  have hhld : Keeps scratch u.mem _ := (hld_keeps u.mem pad_hi).mono Set.subset_union_left
  obtain ⟨m, hnumber, htext, hkeeps⟩ := fmt_number_does (m := store32 u.mem Label.hld.storage pad_hi)
    (by rwa [base_kept hhld]) (BitVec.ofNat 32 st.length) text_fmt_start
  generalize numeral _ _ = digits at htext
  have hscratch := hhld.trans hkeeps
  have hconsole : Console E ⟨m, u.io⟩ := by
    refine ⟨E.frame h.ready (hscratch.mono hE.scratch),
      h.messages.kept hscratch fun n hn hmem => ?_, h.apart⟩
    have hlo := hmem.1
    have hhi := hmem.2
    have := scratch_bounds hn
    omega
  have htype := type_text_acts E hE.scratch htext hconsole.ready
  have hsaid := hconsole.say (chars digits)
  have hprompt := msg_acts (l := .msg_prompt) rfl hsaid
  refine ⟨_, fun ip rs => ?_, (hsaid.say (chars (ascii "> "))).ready, hscratch.union
    ((E.keeps_say hconsole.ready _).trans (E.keeps_say hsaid.ready _))⟩
  calc
    Leads _ ⟨.rom .show_prompt 1, BitVec.ofNat 32 st.length :: st, ip :: rs, u.mem, u.io, none⟩ :=
      run_leads (n := 1) rfl
    Leads _ ⟨.rom .show_prompt 2, BitVec.ofNat 32 st.length :: st, ip :: rs, _, u.io, none⟩ :=
      fmt_start_does.at rfl
    Leads _ ⟨.rom .show_prompt 3, 0 :: st, ip :: rs, m, u.io, none⟩ := hnumber.at rfl
    Leads _ ⟨.rom .show_prompt 4, _ :: _ :: st, ip :: rs, m, u.io, none⟩ :=
      (fmt_end_does htext).at rfl
    Leads _ ⟨.rom .show_prompt 5, st, ip :: rs, _, _, none⟩ := htype.at rfl
    Leads _ ⟨.rom .show_prompt 6, st, ip :: rs, _, _, none⟩ := hprompt.at rfl
    Leads _ _ := run_leads (n := 1) rfl

theorem reset_tib_returns (hE : Editor E) (h : Console E u)
    (hbase : 2 ≤ (load32 u.mem Label.base.storage).toNat) (st : List Cell) :
    ∃ u', Returns .reset_tib u st u' st ∧ Editing E u' [] := by
  have hcomplete := store32_keeps (m := u.mem) (a := Label.tib_complete.storage) 0 (by decide)
  have hcells : Keeps (Label.tib_complete.room ∪ tib_cells) u.mem
      (shortened (store32 u.mem Label.tib_complete.storage 0) 0) :=
    hcomplete.union (shortened_keeps _ 0)
  have hbounds {n : Nat} (hn : n ∈ Label.tib_complete.room ∪ tib_cells) : 71212 ≤ n :=
    hn.elim (fun hn => (tib_complete_bounds hn).1) fun hn => Nat.le_trans (by decide) (tib_cells_bounds hn).1
  generalize hm : shortened (store32 u.mem Label.tib_complete.storage 0) 0 = m at hcells
  have hconsole : Console E ⟨m, u.io⟩ := by
    refine ⟨E.frame h.ready (hcells.mono ?_), h.messages.kept hcells fun n hn hmem => ?_, h.apart⟩
    · rintro n (hn | hn) hmem
      · exact hE.complete n hmem hn
      · exact hE.tib n hmem hn
    · have := hmem.2
      have := hbounds hn
      omega
  have hsame : load32 m Label.base.storage = load32 u.mem Label.base.storage := by
    refine Label.kept hcells (by decide) fun n hn hmem => ?_
    have hhi := hmem.2
    rw [show Label.base.storage.toNat = 68092 by decide] at hhi
    have := hbounds hn
    omega
  obtain ⟨u', hprompt, hready, hkeeps⟩ := show_prompt_returns hE hconsole (by rwa [hsame]) st
  refine ⟨u', fun ip rs => ?_, hready, ?_, ?_⟩
  · calc
      Leads _ ⟨.rom .reset_tib 1, 0 :: st, ip :: rs, u.mem, u.io, none⟩ := run_leads (n := 3) rfl
      Leads _ ⟨.rom .reset_tib 3, st, ip :: rs, store32 u.mem Label.tib_complete.storage 0, u.io,
        none⟩ := (Label.Var.of_isVar rfl).set rfl rfl
      Leads _ ⟨.rom .reset_tib 5, tib_lo :: 0 :: st, ip :: rs, _, u.io, none⟩ :=
        run_leads (n := 6) rfl
      Leads _ ⟨.rom .reset_tib 6, st, ip :: rs, m, u.io, none⟩ := by
        rw [← hm]
        exact (cstore_does tib_ram).at rfl
      Leads _ ⟨.rom .reset_tib 7, st, ip :: rs, u'.mem, u'.io, none⟩ := hprompt.at rfl rfl
      Leads _ _ := run_leads (n := 1) rfl
  · have hempty : Line m [] := by
      rw [← hm]
      exact ⟨Nat.zero_le _, store8_same _, rfl⟩
    refine hempty.kept hkeeps ?_
    rintro n (hn | hn) hmem
    · have := tib_cells_bounds hmem
      have := scratch_bounds hn
      omega
    · exact hE.tib n hn hmem
  · have hcomplete : load32 m Label.tib_complete.storage = 0 := by
      rw [← hm, Label.kept (shortened_keeps _ 0) (by decide)]
      · exact load32_store32 _ (by decide)
      · intro n hn hmem
        have := tib_complete_bounds hmem
        have := tib_cells_bounds hn
        omega
    refine (Label.kept hkeeps (by decide) ?_).trans hcomplete
    rintro n (hn | hn) hmem
    · have := tib_complete_bounds hmem
      have := scratch_bounds hn
      omega
    · exact hE.complete n hn hmem

theorem line_completes (u : Store) {inputs : List Cell} (hc : received inputs = some c)
    (hend : EndsLine c) : ∃ rest, Acts .handle_uart_input (u.answering inputs) [] []
      { u.answering rest with mem := store32 u.mem Label.tib_complete.storage (-1) } := by
  obtain ⟨rest, hkey⟩ := ask_key_acts u inputs
  rw [hc] at hkey
  have hcr : Does .handle_cr u.mem [] [] (store32 u.mem Label.tib_complete.storage (-1)) :=
    .of_leads rfl fun ip ds rs io =>
      calc
        Leads _ ⟨.rom .handle_cr 1, -1 :: ds, ip :: rs, u.mem, io, none⟩ := run_leads (n := 3) rfl
        Leads _ ⟨.rom .handle_cr 3, ds, ip :: rs, _, io, none⟩ := (Label.Var.of_isVar rfl).set rfl rfl
        Leads _ _ := run_leads (n := 1) rfl
  refine ⟨rest, .of_leads rfl fun ip ds rs => ?_⟩
  calc
    Leads _ ⟨.rom .handle_uart_input 1, -1 :: c :: ds, ip :: rs, u.mem, (u.answering rest).io,
      none⟩ := hkey.at rfl
    Leads _ ⟨.rom .handle_uart_char 0, c :: ds, .rom .handle_uart_input 3 :: ip :: rs, u.mem,
      (u.answering rest).io, none⟩ := (qbranch_passed rfl (by decide)).trans (run_leads (n := 1) rfl)
    Leads _ ⟨.rom .handle_uart_char 2, flag (decide (EndsLine c)) :: c :: ds,
      .rom .handle_uart_input 3 :: ip :: rs, u.mem, (u.answering rest).io, none⟩ :=
        (run_leads (n := 1) rfl).trans ((matches_cr_does c).at rfl)
    Leads _ ⟨.rom .handle_uart_char 4, ds, .rom .handle_uart_input 3 :: ip :: rs, u.mem,
      (u.answering rest).io, none⟩ :=
        (qbranch_passed rfl (by rw [decide_eq_true hend]; decide)).trans (run_leads (n := 1) rfl)
    Leads _ ⟨.rom .handle_uart_char 5, ds, .rom .handle_uart_input 3 :: ip :: rs,
      store32 u.mem Label.tib_complete.storage (-1), (u.answering rest).io, none⟩ := hcr.at rfl
    Leads _ _ := run_leads (n := 3) rfl

/-- `interpret_tib` calls `evaluate` on the text of the line. -/
theorem interpret_tib_calls (hE : Editor E) (h : E.Ready u) (hl : Line u.mem s) :
    ∃ v : Store, Line v.mem s ∧ ∀ st rs, Leads ⟨.rom .interpret_tib 0, st, rs, u.mem, u.io, none⟩
      ⟨.rom .evaluate 0, BitVec.ofNat 32 s.length :: (tib_lo + 1) :: st, .rom .interpret_tib 4 :: rs,
        v.mem, v.io, none⟩ := by
  have hsaid := hl.kept (E.keeps_say h [0x0a, 13]) hE.tib
  have hcount : (((E.say u [0x0a, 13]).mem tib_lo).setWidth 32 : Cell) = BitVec.ofNat 32 s.length := by
    rw [← hsaid.count_toNat, BitVec.ofNat_toNat, BitVec.setWidth_eq]
  refine ⟨E.say u [0x0a, 13], hsaid, fun st rs => ?_⟩
  calc
    Leads _ ⟨.rom .interpret_tib 1, st, rs, (E.say u [0x0a, 13]).mem, (E.say u [0x0a, 13]).io, none⟩ :=
      (cr_acts E h).at rfl
    Leads _ ⟨.rom .interpret_tib 2, tib_lo :: st, rs, (E.say u [0x0a, 13]).mem,
      (E.say u [0x0a, 13]).io, none⟩ := run_leads (n := 3) rfl
    Leads _ ⟨.rom .interpret_tib 3, BitVec.ofNat 32 s.length :: (tib_lo + 1) :: st, rs,
      (E.say u [0x0a, 13]).mem, (E.say u [0x0a, 13]).io, none⟩ := by
        rw [← hcount]
        exact (count_does tib_ram.1).at rfl
    Leads _ _ := run_leads (n := 1) rfl

theorem line_evaluated (hE : Editor E) (h : Editing E u s) {inputs : List Cell}
    (hc : received inputs = some c) (hend : EndsLine c) :
    ∃ v : Store, Line v.mem s ∧ ∀ st ip rs,
      Leads ⟨.rom .do_uart 0, st, ip :: rs, (u.answering inputs).mem, (u.answering inputs).io, none⟩
        ⟨.rom .evaluate 0, BitVec.ofNat 32 s.length :: (tib_lo + 1) :: st,
          [.rom .interpret_tib 4, .rom .try_eval_tib 4, .rom .do_uart 2] ++ ip :: rs, v.mem, v.io,
          none⟩ := by
  obtain ⟨rest, hinput⟩ := line_completes u hc hend
  have hstore := store32_keeps (m := u.mem) (a := Label.tib_complete.storage) (-1) (by decide)
  have hload : load32 (store32 u.mem Label.tib_complete.storage (-1)) Label.tib_complete.storage = -1 :=
    load32_store32 _ (by decide)
  have hready : E.Ready ⟨store32 u.mem Label.tib_complete.storage (-1), (u.answering rest).io⟩ :=
    E.frame h.ready (hstore.mono fun n hn hmem => hE.complete n hmem hn)
  obtain ⟨v, hv, hcalls⟩ := interpret_tib_calls hE hready (h.line.kept hstore fun n hn hmem => by
    have := tib_cells_bounds hmem
    have := tib_complete_bounds hn
    omega)
  refine ⟨v, hv, fun st ip rs => ?_⟩
  generalize store32 u.mem Label.tib_complete.storage (-1) = m at hinput hload hcalls
  calc
    Leads _ ⟨.rom .do_uart 1, st, ip :: rs, m, (u.answering rest).io, none⟩ := hinput.at rfl
    Leads _ ⟨.rom .try_eval_tib 0, st, .rom .do_uart 2 :: ip :: rs, m, (u.answering rest).io,
      none⟩ := run_leads (n := 1) rfl
    Leads _ ⟨.rom .try_eval_tib 2, -1 :: st, .rom .do_uart 2 :: ip :: rs, m, (u.answering rest).io,
      none⟩ := by
        rw [← hload]
        exact (Label.Var.of_isVar rfl).fetch rfl rfl
    Leads _ ⟨.rom .interpret_tib 0, st, .rom .try_eval_tib 4 :: .rom .do_uart 2 :: ip :: rs, m,
      (u.answering rest).io, none⟩ :=
        (qbranch_passed rfl (by decide)).trans (run_leads (n := 1) rfl)
    Leads _ _ := hcalls _ _

end Words

/-- `reset_tib` empties the line. From then on the buffer holds what the received characters
make of an empty line, nothing but the buffer is written, and the end of the line has just that
evaluated. Below base 2 there is no number for the prompt to print. -/
theorem line_of_characters [Board] [Sram] {E : Emitter} (hE : Editor E) (st : List Cell) :
    (∀ u : Store, Console E u → 2 ≤ (load32 u.mem Label.base.storage).toNat →
      ∃ u', Returns .reset_tib u st u' st ∧ ReturnsBounded .reset_tib u st u' st ∧ Editing E u' []) ∧
    ∀ u : Store, Editing E u [] → ∀ calls : List (List Cell),
      (∀ c ∈ calls.filterMap received, Plain c) →
      ∃ w, Polls st u calls w ∧ Line w.mem ((calls.filterMap received).foldl edited []) ∧
        Keeps (tib_cells ∪ E.footprint) u.mem w.mem ∧
        ∀ inputs, ∀ c ∈ received inputs, EndsLine c →
          ∃ v : Store, Line v.mem ((calls.filterMap received).foldl edited []) ∧ ∀ ip rs,
            Arrives
              ⟨.rom .do_uart 0, st, ip :: rs, (w.answering inputs).mem, (w.answering inputs).io, none⟩
              ⟨.rom .evaluate 0, BitVec.ofNat 32 ((calls.filterMap received).foldl edited []).length ::
                (tib_lo + 1) :: st, [.rom .interpret_tib 4, .rom .try_eval_tib 4, .rom .do_uart 2] ++
                  ip :: rs, v.mem, v.io, none⟩ := by
  refine ⟨fun u h hbase => ?_, fun u h calls hplain => ?_⟩
  · obtain ⟨u', hreturns, hediting⟩ := reset_tib_returns hE h hbase st
    exact ⟨u', hreturns, hreturns.bounded, hediting⟩
  obtain ⟨w, hpolls, hw, hkeeps⟩ := polls hE h st calls hplain
  refine ⟨w, hpolls, hw.line, hkeeps, fun inputs c hc hend => ?_⟩
  obtain ⟨v, hv, hleads⟩ := line_evaluated hE hw hc hend
  exact ⟨v, hv, fun ip rs => (hleads st ip rs).arrives⟩

namespace Editing

local instance : Board := .flat
local instance : Sram := .flat

theorem uart_bounds (h : n ∈ (uart).footprint) : 68124 ≤ n ∧ n < 68128 := h

theorem uart_editor : Editor uart := by
  refine ⟨fun n hn hmem => ?_, fun n hn hmem => ?_, fun n hmem hn => ?_⟩ <;>
    have := uart_bounds hn
  · have := tib_cells_bounds hmem
    omega
  · have := tib_complete_bounds hmem
    omega
  · have := scratch_bounds hmem
    omega

/-- An `x` taken back, with a call in between at which the UART has nothing to say. -/
def typed : List (List Cell) := [[1, 0x32], [0], [1, 0x78], [1, 127], [1, 0x2e]]

theorem typed_evaluated : ∃ u w v : Store, Returns .reset_tib ⟨image, ⟨[], [], []⟩⟩ [] u [] ∧
    Polls [] u typed w ∧ Line w.mem (ascii "2.") ∧ Keeps (tib_cells ∪ (uart).footprint) u.mem w.mem ∧
    Line v.mem (ascii "2.") ∧
    Leads ⟨.rom .do_uart 0, [], [.rom .main 24], (w.answering [1, 13]).mem, (w.answering [1, 13]).io, none⟩
      ⟨.rom .evaluate 0, [2, tib_lo + 1],
        [.rom .interpret_tib 4, .rom .try_eval_tib 4, .rom .do_uart 2, .rom .main 24], v.mem, v.io,
        none⟩ := by
  obtain ⟨hreset, hedit⟩ := line_of_characters uart_editor []
  have hbase : load32 image Label.base.storage = 10 := image_variable (by decide)
  have hready : (uart).Ready ⟨image, ⟨[], [], []⟩⟩ := image_variable (by decide)
  obtain ⟨u, hu, -, hediting⟩ := hreset ⟨image, ⟨[], [], []⟩⟩ ⟨hready, image_messages, fun n hn hmem => by
    have := uart_bounds hn
    have := hmem.1
    omega⟩ (by rw [hbase]; decide)
  have hplain : ∀ c ∈ typed.filterMap received, Plain c :=
    List.forall_iff_forall_mem.mp (by decide +kernel : (typed.filterMap received).Forall Plain)
  have hfold : (typed.filterMap received).foldl edited [] = ascii "2." := by decide +kernel
  obtain ⟨w, hpolls, hline, hkeeps, hend⟩ := hedit u hediting typed hplain
  rw [hfold] at hline hend
  obtain ⟨v, hv, hleads⟩ := hend [1, 13] 13 rfl (.inl rfl)
  exact ⟨u, w, v, hu, hpolls, hline, hkeeps, hv, (hleads (.rom .main 24) []).leads⟩

end Editing

end Allwinner.Scp
