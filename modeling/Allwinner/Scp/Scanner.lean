import Allwinner.Library.Segments
import Allwinner.Scp.Strings

/-!
# The words of a text

`scan_one_word` cuts the next word out of the parse buffer. The words are the maximal
runs of characters that are no whitespace.
-/

namespace Allwinner.Scp

open Library Memory
open Forth hiding ip ds rs mem io jump one two

def isSpace (c : Byte) : Bool := c == 0x20 || c == 9 || (c == 0x0a || c == 13)

theorem prefixLength_cons (p : Byte → Bool) (c : Byte) (s : List Byte) :
    prefixLength p (c :: s) = if p c = true then prefixLength p s + 1 else 0 := by
  cases hc : p c <;> simp [prefixLength, hc]

theorem add_one_add (k : Cell) (n : Nat) : k + 1 + BitVec.ofNat 32 n = k + BitVec.ofNat 32 (n + 1) := by
  rw [BitVec.ofNat_add]
  bv_omega

/-- The parse buffer, as the two parse variables name it. -/
def ptr (m : Memory 32) : Cell := load32 m Label.parse_ptr.storage
def len (m : Memory 32) : Cell := load32 m Label.parse_len.storage
def text (m : Memory 32) : List Byte := bytes m (ptr m) (len m).toNat

/-- What `scan_one_word` leaves on the stack and in the parse variables. -/
def word_start (m : Memory 32) : Cell := ptr m + BitVec.ofNat 32 (gap isSpace (text m))
def word_length (m : Memory 32) : Cell := BitVec.ofNat 32 (segment isSpace (text m))

def scanned (m : Memory 32) : Memory 32 :=
  store32 (store32 m Label.parse_len.storage
    (len m - BitVec.ofNat 32 (gap isSpace (text m)) - word_length m))
    Label.parse_ptr.storage (word_start m + word_length m)

theorem length_text : (text m).length = (len m).toNat := length_bytes

theorem sub_ofNat_toNat {n : Cell} {k : Nat} (hk : k ≤ n.toNat) :
    (n - BitVec.ofNat 32 k).toNat = n.toNat - k := by
  have := n.isLt
  rw [BitVec.toNat_sub, BitVec.toNat_ofNat]
  omega

/-- What the call leaves at either outcome. -/
def answer (m : Memory 32) : List Cell :=
  [if segment isSpace (text m) = 0 then 0 else word_length m, word_start m]

def after_scan (m : Memory 32) : Memory 32 := if segment isSpace (text m) = 0 then m else scanned m

/-- The cells of the two parse variables. -/
def parse_cells : Set Nat :=
  Set.Ico Label.parse_len.storage.toNat (Label.parse_len.storage.toNat + 4) ∪
    Set.Ico Label.parse_ptr.storage.toNat (Label.parse_ptr.storage.toNat + 4)

theorem scanned_keeps : Keeps parse_cells m (scanned m) :=
  (store32_keeps _ (by decide)).union (store32_keeps _ (by decide))

theorem ptr_scanned : ptr (scanned m) = word_start m + word_length m := load32_store32 _ (by decide)

theorem len_scanned : len (scanned m) =
    len m - BitVec.ofNat 32 (gap isSpace (text m)) - word_length m := by
  refine ((store32_keeps _ (by decide)).load32 (by decide) fun n hlo hhi hn => ?_).trans
    (load32_store32 _ (by decide))
  rw [show Label.parse_len.storage.toNat = 70252 by decide] at hlo
  have := hn.2
  rw [show Label.parse_ptr.storage.toNat = 70244 by decide] at this
  omega

/-- The buffer `s` at `a`, with its first `i` characters consumed. -/
structure Consumed (a : Cell) (s : List Byte) (i : Nat) (m : Memory 32) : Prop where
  ptr : ptr m = a + BitVec.ofNat 32 i
  len : (len m).toNat + i = s.length
  chars : bytes m a s.length = s

namespace Consumed

variable {a : Cell} {s : List Byte} {i : Nat}

theorem text (h : Consumed a s i m) : text m = s.drop i := by
  have hlen := h.len
  rw [Scp.text, h.ptr, show (Scp.len m).toNat = s.length - i by omega, ← bytes_drop (by omega),
    h.chars]

theorem apart (h : Consumed a s i m) (ha : Apart W a s.length) : Apart W (Scp.ptr m) (Scp.len m).toNat := by
  intro k hk
  have hlen := h.len
  rw [h.ptr, BitVec.add_assoc, ← BitVec.ofNat_add]
  exact ha _ (by omega)

theorem word_start (h : Consumed a s i m) :
    word_start m = a + BitVec.ofNat 32 (i + gap isSpace (s.drop i)) := by
  rw [Scp.word_start, h.ptr, h.text, BitVec.ofNat_add, BitVec.add_assoc]

theorem word_length (h : Consumed a s i m) :
    word_length m = BitVec.ofNat 32 (segment isSpace (s.drop i)) := by
  rw [Scp.word_length, h.text]

theorem scanned (h : Consumed a s i m) (ha : Apart parse_cells a s.length) :
    Consumed a s (i + (gap isSpace (s.drop i) + segment isSpace (s.drop i))) (scanned m) := by
  have hle := gap_add_segment_le (p := isSpace) (s := s.drop i)
  have hlen := h.len
  rw [List.length_drop] at hle
  refine ⟨?_, ?_, (scanned_keeps.bytes_apart ha).trans h.chars⟩
  · rw [ptr_scanned, h.word_start, h.word_length, BitVec.add_assoc, ← BitVec.ofNat_add, Nat.add_assoc]
  · rw [len_scanned, h.word_length, h.text, sub_ofNat_toNat, sub_ofNat_toNat] <;>
      try rw [sub_ofNat_toNat]
    all_goals omega

theorem after_scan (h : Consumed a s i m) (ha : Apart parse_cells a s.length) :
    ∃ j, Consumed a s j (after_scan m) := by
  unfold Scp.after_scan
  split
  · exact ⟨i, h⟩
  · exact ⟨_, h.scanned ha⟩

theorem iterate (h : Consumed a s i m) (ha : Apart parse_cells a s.length) (k : Nat) :
    ∃ j, Consumed a s j (Scp.after_scan^[k] m) := by
  induction k generalizing i m with
  | zero => exact ⟨i, h⟩
  | succ k ih =>
    obtain ⟨j, hj⟩ := h.after_scan ha
    exact ih hj

/-- One call after the other: the words from left to right, then the end for ever. -/
theorem answer_iterate (h : Consumed a s i m) (ha : Apart parse_cells a s.length) (k : Nat) :
    answer (Scp.after_scan^[k] m) = ((runsFrom isSpace i (s.drop i))[k]?).elim
      [0, Scp.word_start (Scp.after_scan^[k] m)]
      fun r => [BitVec.ofNat 32 r.2, a + BitVec.ofNat 32 r.1] := by
  induction k generalizing i m with
  | zero =>
    rw [runsFrom, Function.iterate_zero, id, answer, h.text]
    split
    · rfl
    · rw [h.word_length, h.word_start]
      rfl
  | succ k ih =>
    rw [Function.iterate_succ_apply, Scp.after_scan, h.text, runsFrom]
    split
    · rename_i hzero
      rw [ih h, runsFrom, if_pos hzero]
      rfl
    · rw [ih (h.scanned ha), List.drop_drop]
      rfl

end Consumed

variable [Board]

-- ---------------------------------------------------------------------------
-- Scanning
-- ---------------------------------------------------------------------------

theorem ask_whitespace_does (c : Byte) :
    Does .ask_whitespace m [c.setWidth 32] [flag (isSpace c)] m := by
  have hequal (x : Byte) : (c == x) = (c.setWidth 32 == (x.setWidth 32 : Cell)) :=
    (setWidth_beq c x).symm
  rw [isSpace, ← flag_or, ← flag_or, ← flag_or, hequal, hequal, hequal, hequal]
  exact .of_leads rfl fun _ _ _ _ => run_leads (n := 31) rfl

theorem ask_non_whitespace_does (c : Byte) :
    Does .ask_non_whitespace m [c.setWidth 32] [flag (!isSpace c)] m := by
  rw [← flag_xor, xor_neg_one]
  exact .of_leads rfl fun _ _ _ _ => ((ask_whitespace_does c).at rfl).trans
    ((not_does.at rfl).trans (run_leads (n := 1) rfl))

/-- One round of `scan`, up to the test of the character. -/
theorem scan_char {t : Label} {p : Byte → Bool} (ht : t ∈ Label.all.drop 8)
    (hp : ∀ c : Byte, Does t m [c.setWidth 32] [flag (p c)] m) (ha : Visible (a + k)) :
    Leads ⟨.rom .scan 8, t.offset.setWidth 32 :: k :: a :: ds, rs, m, io, none⟩
      ⟨.rom .scan 16, flag (!p (m (a + k))) :: k :: a :: ds, .ram (t.offset.setWidth 32) :: rs, m,
        io, none⟩ := by
  rw [← flag_xor, xor_neg_one]
  calc
    Leads ⟨.rom .scan 8, t.offset.setWidth 32 :: k :: a :: ds, rs, m, io, none⟩
      ⟨.rom .scan 12, (a + k) :: k :: a :: ds, .ram (t.offset.setWidth 32) :: rs, m, io, none⟩ :=
        run_leads (n := 10) rfl
    Leads _ ⟨.rom .scan 13, (m (a + k)).setWidth 32 :: k :: a :: ds,
      .ram (t.offset.setWidth 32) :: rs, m, io, none⟩ := (cat_does ha).at rfl
    Leads _ ⟨.rom .scan 14, t.offset.setWidth 32 :: (m (a + k)).setWidth 32 :: k :: a :: ds,
      .ram (t.offset.setWidth 32) :: rs, m, io, none⟩ := run_leads (n := 1) rfl
    Leads _ ⟨.rom .scan 15, flag (p (m (a + k))) :: k :: a :: ds,
      .ram (t.offset.setWidth 32) :: rs, m, io, none⟩ := (hp _).execute ht rfl
    Leads _ _ := not_does.at rfl

theorem scan_round {t : Label} {p : Byte → Bool} (ht : t ∈ Label.all.drop 8)
    (hp : ∀ c : Byte, Does t m [c.setWidth 32] [flag (p c)] m) (ha : Visible (a + k)) :
    Leads ⟨.rom .scan 8, t.offset.setWidth 32 :: k :: a :: ds, .ram c :: ip :: rs, m, io, none⟩
      (if p (m (a + k)) = true then
        ⟨.rom .scan 27, t.offset.setWidth 32 :: (k + 1) :: a :: ds, .ram c :: ip :: rs, m, io, none⟩
      else ⟨ip, k :: ds, rs, m, io, none⟩) := by
  refine (scan_char ht hp ha).trans ?_
  cases p (m (a + k)) with
  | false =>
    rw [if_neg Bool.false_ne_true]
    exact (qbranch_passed rfl (flag_ne_zero.mpr rfl)).trans (run_leads (n := 7) rfl)
  | true => exact (qbranch_taken rfl rfl rfl).trans (run_leads (n := 11) rfl)

theorem scan_loop (ds : List Cell) (ip : Ip) (rs : List Ip) (io : Io) {t : Label} {p : Byte → Bool}
    (ht : t ∈ Label.all.drop 8)
    (hp : ∀ c : Byte, Does t m [c.setWidth 32] [flag (p c)] m) (n : Nat) {c : Cell}
    (hc : c.toNat = n) (ha : Readable (a + k) (n + 1)) :
    Leads ⟨.rom .scan 8, t.offset.setWidth 32 :: k :: a :: ds, .ram c :: ip :: rs, m, io, none⟩
      ⟨ip, (k + BitVec.ofNat 32 (prefixLength p (bytes m (a + k) (n + 1)))) :: ds, rs, m, io,
        none⟩ := by
  induction n generalizing c k with
  | zero =>
    obtain rfl : c = 0 := BitVec.eq_of_toNat_eq hc
    refine (scan_round ht hp (ha.head (by omega))).trans ?_
    rw [bytes, prefixLength_cons]
    split
    · exact (next_passed rfl).trans (run_leads (n := 4) rfl)
    · rw [BitVec.add_zero]
  | succ n ih =>
    have hne : c ≠ 0 := by rintro rfl; cases hc
    refine (scan_round ht hp (ha.head (by omega))).trans ?_
    rw [bytes, prefixLength_cons]
    split
    · refine (next_taken rfl rfl hne).trans ?_
      have hrest := ih (k := k + 1) (c := c - 1) (by rw [toNat_pred hne]; omega)
        (by rw [← BitVec.add_assoc]; exact ha.tail)
      rw [← BitVec.add_assoc, add_one_add] at hrest
      exact hrest
    · rw [BitVec.add_zero]

theorem scan_does {t : Label} {p : Byte → Bool} (ht : t ∈ Label.all.drop 8)
    (hp : ∀ c : Byte, Does t m [c.setWidth 32] [flag (p c)] m) (n : Cell)
    (ha : Readable a n.toNat) : Does .scan m [t.offset.setWidth 32, n, a]
      [BitVec.ofNat 32 (prefixLength p (bytes m a n.toNat))] m := by
  refine .of_leads rfl fun ip ds rs io => ?_
  refine (run_leads (n := 1) rfl : Leads _ ⟨.rom .scan 1, n :: t.offset.setWidth 32 :: a :: ds,
    ip :: rs, m, io, none⟩).trans ?_
  by_cases hn : n = 0
  · subst hn
    exact (qdup_zero rfl).trans ((qbranch_taken rfl rfl rfl).trans (run_leads (n := 7) rfl))
  · have hpred := toNat_pred hn
    have hpos := pos_of_ne_zero hn
    obtain ⟨k, hk⟩ : ∃ k, n.toNat = k + 1 := ⟨n.toNat - 1, by omega⟩
    have hstart : a + (0 : Cell) = a := BitVec.add_zero a
    have hloop := scan_loop ds ip rs io (k := 0) (a := a) ht hp k
      (c := n - 1) (by omega) (by rwa [hstart, ← hk])
    rw [hstart, ← hk, show ∀ x : Cell, 0 + x = x from BitVec.zero_add] at hloop
    calc
      Leads _ ⟨.rom .scan 2, n :: n :: t.offset.setWidth 32 :: a :: ds, ip :: rs, m, io, none⟩ :=
        qdup_ne rfl hn
      Leads _ ⟨.rom .scan 3, n :: t.offset.setWidth 32 :: a :: ds, ip :: rs, m, io, none⟩ :=
        qbranch_passed rfl hn
      Leads _ ⟨.rom .scan 4, 1 :: n :: t.offset.setWidth 32 :: a :: ds, ip :: rs, m, io, none⟩ :=
        run_leads (n := 3) rfl
      Leads _ ⟨.rom .scan 5, (n - 1) :: t.offset.setWidth 32 :: a :: ds, ip :: rs, m, io, none⟩ :=
        sub_does.at rfl
      Leads _ ⟨.rom .scan 8, t.offset.setWidth 32 :: 0 :: a :: ds, .ram (n - 1) :: ip :: rs, m, io,
        none⟩ := run_leads (n := 5) rfl
      Leads _ _ := hloop

theorem num_whitespace_does (n : Cell) (ha : Readable a n.toNat) :
    Does .num_whitespace m [n, a] [BitVec.ofNat 32 (gap isSpace (bytes m a n.toNat))] m :=
  .of_leads rfl fun _ _ _ _ => (run_leads (n := 1) rfl).trans
    (((scan_does (t := .ask_whitespace) (by decide) ask_whitespace_does n ha).at rfl).trans
      (run_leads (n := 1) rfl))

theorem num_non_whitespace_does (n : Cell) (ha : Readable a n.toNat) :
    Does .num_non_whitespace m [n, a]
      [BitVec.ofNat 32 (prefixLength (fun c => !isSpace c) (bytes m a n.toNat))] m :=
  .of_leads rfl fun _ _ _ _ => (run_leads (n := 1) rfl).trans
    (((scan_does (t := .ask_non_whitespace) (by decide) ask_non_whitespace_does n ha).at rfl).trans
      (run_leads (n := 1) rfl))

theorem advance_does : Does .advance m [k, n, a] [n - k, a + k] m :=
  .of_leads rfl fun ip ds rs io =>
    calc
      Leads ⟨.rom .advance 0, k :: n :: a :: ds, ip :: rs, m, io, none⟩
        ⟨.rom .advance 2, k :: n :: a :: ds, .ram k :: ip :: rs, m, io, none⟩ := run_leads (n := 2) rfl
      Leads _ ⟨.rom .advance 3, (n - k) :: a :: ds, .ram k :: ip :: rs, m, io, none⟩ :=
        sub_does.at rfl
      Leads _ _ := run_leads (n := 8) rfl

-- ---------------------------------------------------------------------------
-- The parse buffer
-- ---------------------------------------------------------------------------

/-- The parse variables and the buffer are RAM. -/
structure Scannable (m : Memory 32) : Prop where
  ptr : Label.parse_ptr.Var
  len : Label.parse_len.Var
  buffer : Readable (Scp.ptr m) (Scp.len m).toNat

theorem scan_one_word_gap (hm : Scannable m) : Leads ⟨.rom .scan_one_word 0, ds, rs, m, io, none⟩
    ⟨.rom .scan_one_word 7, (len m - BitVec.ofNat 32 (gap isSpace (text m))) :: word_start m :: ds,
      rs, m, io, none⟩ :=
  calc
    Leads ⟨.rom .scan_one_word 0, ds, rs, m, io, none⟩
      ⟨.rom .scan_one_word 2, ptr m :: ds, rs, m, io, none⟩ := hm.ptr.fetch rfl rfl
    Leads _ ⟨.rom .scan_one_word 4, len m :: ptr m :: ds, rs, m, io, none⟩ := hm.len.fetch rfl rfl
    Leads _ ⟨.rom .scan_one_word 5, len m :: ptr m :: len m :: ptr m :: ds, rs, m, io, none⟩ :=
      run_leads (n := 4) rfl
    Leads _ ⟨.rom .scan_one_word 6, _ :: len m :: ptr m :: ds, rs, m, io, none⟩ :=
      (num_whitespace_does _ hm.buffer).at rfl
    Leads _ _ := advance_does.at rfl

/-- At the end of the buffer the address is left on the stack below the flag. -/
theorem scan_one_word_end (hm : Scannable m) (h : segment isSpace (text m) = 0) :
    Does .scan_one_word m [] [0, word_start m] m := by
  have hgap := segment_eq_zero (i := 0) (s := text m) (by simpa using h)
  have hle := gap_add_segment_le (p := isSpace) (s := text m)
  rw [List.drop_zero, Nat.zero_add, length_text] at hgap
  rw [length_text] at hle
  have hzero : len m - BitVec.ofNat 32 (gap isSpace (text m)) = 0 :=
    BitVec.eq_of_toNat_eq (by rw [sub_ofNat_toNat (by omega)]; simp; omega)
  refine .of_leads rfl fun ip ds rs io => (scan_one_word_gap hm).trans ?_
  rw [hzero]
  exact (qdup_zero rfl).trans ((qbranch_taken rfl rfl rfl).trans (run_leads (n := 5) rfl))

theorem scan_one_word_found (hm : Scannable m) (h : segment isSpace (text m) ≠ 0) :
    Does .scan_one_word m [] [word_length m, word_start m] (scanned m) := by
  have hle := gap_add_segment_le (p := isSpace) (s := text m)
  rw [length_text] at hle
  have hrest := sub_ofNat_toNat (n := len m) (k := gap isSpace (text m)) (by omega)
  have hne : len m - BitVec.ofNat 32 (gap isSpace (text m)) ≠ 0 := by
    intro hzero
    rw [hzero] at hrest
    simp at hrest
    omega
  have hword := num_non_whitespace_does (m := m) (a := word_start m)
    (len m - BitVec.ofNat 32 (gap isSpace (text m))) (by rw [hrest]; exact hm.buffer.drop _)
  rw [hrest, word_start, ← bytes_drop (by omega)] at hword
  change Does _ _ [_, word_start m] [word_length m] _ at hword
  refine .of_leads rfl fun ip ds rs io => (scan_one_word_gap hm).trans ?_
  obtain ⟨n, hn⟩ : ∃ n, len m - BitVec.ofNat 32 (gap isSpace (text m)) = n := ⟨_, rfl⟩
  rw [scanned, hn]
  rw [hn] at hne hword
  calc
    Leads _ ⟨.rom .scan_one_word 8, n :: n :: word_start m :: ds, ip :: rs, m, io, none⟩ :=
      qdup_ne rfl hne
    Leads _ ⟨.rom .scan_one_word 9, n :: word_start m :: ds, ip :: rs, m, io, none⟩ :=
      qbranch_passed rfl hne
    Leads _ ⟨.rom .scan_one_word 10, n :: word_start m :: n :: word_start m :: ds, ip :: rs, m, io,
      none⟩ := run_leads (n := 4) rfl
    Leads _ ⟨.rom .scan_one_word 11, word_length m :: n :: word_start m :: ds, ip :: rs, m, io,
      none⟩ := hword.at rfl
    Leads _ ⟨.rom .scan_one_word 15, word_length m :: n :: word_start m :: word_start m :: ds,
      .ram (word_length m) :: ip :: rs, m, io, none⟩ := run_leads (n := 4) rfl
    Leads _ ⟨.rom .scan_one_word 16, (n - word_length m) :: (word_start m + word_length m) ::
      word_start m :: ds, .ram (word_length m) :: ip :: rs, m, io, none⟩ := advance_does.at rfl
    Leads _ ⟨.rom .scan_one_word 18, (word_start m + word_length m) :: word_start m :: ds,
      .ram (word_length m) :: ip :: rs, _, io, none⟩ := hm.len.set rfl rfl
    Leads _ ⟨.rom .scan_one_word 20, word_start m :: ds, .ram (word_length m) :: ip :: rs, _, io,
      none⟩ := hm.ptr.set rfl rfl
    Leads _ _ := run_leads (n := 2) rfl

theorem scan_one_word_does (hm : Scannable m) :
    Does .scan_one_word m [] (answer m) (after_scan m) := by
  unfold answer after_scan
  split
  · exact scan_one_word_end hm ‹_›
  · exact scan_one_word_found hm ‹_›

end Allwinner.Scp
