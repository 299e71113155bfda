import Mathlib.Data.Nat.Digits.Lemmas
import Allwinner.Scp.Numbers
import Allwinner.Scp.Output

/-!
# Numbers as output

`fmt_number` stores the digits of a cell from the end of the pad downwards. What it
leaves there is a text that `ask_number` reads as the same cell.
-/

namespace Allwinner.Scp

open Library Memory
open Forth hiding ip ds rs mem io jump one two

def digit_char (d : Nat) : Byte := BitVec.ofNat 8 (if d ≤ 9 then 0x30 + d else 0x61 + (d - 10))

/-- The character `digit` makes of a number, before it is cut to a byte. -/
def char_cell (d : Cell) : Cell := d + (flag ((9 : Cell).ult d) &&& (0x61 - 0x39 - 1)) + 0x30

/-- The digits as `fmt_number` comes by them, the last one first. Zero has one digit. -/
def places (b u : Nat) : List Nat := if u = 0 then [0] else Nat.digits b u

def numeral (b u : Nat) : List Byte := (places b u).reverse.map digit_char

-- ---------------------------------------------------------------------------
-- Numerals that are read back
-- ---------------------------------------------------------------------------

theorem digit?_digit_char (hd : d < b) (hb : b ≤ 36) : digit? b (digit_char d) = some d := by
  have hlt : d < 36 := by omega
  unfold digit? digit_char
  split <;> rename_i h <;> rw [BitVec.toNat_ofNat, Nat.mod_eq_of_lt (by omega)]
  · rw [if_pos (by omega), Option.filter_some, Nat.add_sub_cancel_left, if_pos (decide_eq_true hd)]
  · rw [if_neg (by omega), if_pos (by omega), Option.filter_some, Nat.add_sub_cancel_left,
      Nat.sub_add_cancel (by omega), if_pos (decide_eq_true hd)]

theorem char_cell_setWidth (hd : d < 2 ^ 32) :
    (char_cell (BitVec.ofNat 32 d)).setWidth 8 = digit_char d := by
  apply BitVec.eq_of_toNat_eq
  unfold char_cell digit_char
  by_cases h : d ≤ 9
  · have hult : (9 : Cell).ult (BitVec.ofNat 32 d) = false := by simp [BitVec.ult]; omega
    rw [hult, if_pos h]
    simp [flag]
    omega
  · have hult : (9 : Cell).ult (BitVec.ofNat 32 d) = true := by simp [BitVec.ult]; omega
    rw [hult, if_neg h]
    simp [flag]
    omega

theorem places_lt (hb : 2 ≤ b) (h : d ∈ places b u) : d < b := by
  unfold places at h
  split at h
  · obtain rfl := List.mem_singleton.mp h
    omega
  · exact Nat.digits_lt_base hb h

theorem places_cons (hb : 2 ≤ b) (u : Nat) :
    places b u = u % b :: if u / b = 0 then [] else places b (u / b) := by
  unfold places
  by_cases hu : u = 0
  · simp [hu]
  · rw [if_neg hu, Nat.digits_of_two_le_of_pos hb (Nat.pos_of_ne_zero hu)]
    split <;> simp [*]

theorem length_places (hb : 2 ≤ b) (hu : u < 2 ^ k) (hk : 0 < k) : (places b u).length ≤ k := by
  unfold places
  split
  · exact hk
  · rw [Nat.digits_length_le_iff hb]
    exact Nat.lt_of_lt_of_le hu (Nat.pow_le_pow_left hb k)

theorem denote_places (b u : Nat) : denote b 0 (places b u).reverse = u := by
  have hfold (ds : List Nat) : denote b 0 ds.reverse = Nat.ofDigits b ds := by
    rw [denote, List.foldl_reverse, Nat.ofDigits_eq_foldr]
    simp [Nat.mul_comm, Nat.add_comm]
  rw [hfold]
  unfold places
  split
  · simp [*]
  · exact Nat.ofDigits_digits b u

theorem mapM_digit?_numeral (hb : b ≤ 36) {ds : List Nat} (hds : ∀ d ∈ ds, d < b) :
    (ds.map digit_char).mapM (digit? b) = some ds := by
  induction ds with
  | nil => rfl
  | cons d ds ih =>
    rw [List.map_cons, mapM_digit?_cons]
    refine ⟨d, ds, digit?_digit_char (hds d List.mem_cons_self) hb, ?_, rfl⟩
    exact ih fun d' hd' => hds d' (List.mem_cons_of_mem _ hd')

/-- None of the sums of a numeral wraps around. -/
theorem recognised_numeral (hb : 2 ≤ b) (hb' : b ≤ 36) (hu : u < 2 ^ 32) :
    recognised b (numeral b u) = some u := by
  have hne : numeral b u ≠ [] := by simp [numeral, places_cons hb u]
  have hdenote := denote_places b u
  rw [recognised, if_neg hne, foldlM_append_digit _ (by decide)]
  refine ⟨(places b u).reverse, ?_, productsFit_of_lt (by omega) (by omega), ?_⟩
  · exact mapM_digit?_numeral hb' fun d hd => places_lt hb (List.mem_reverse.mp hd)
  · rw [hdenote, Nat.mod_eq_of_lt hu]

-- ---------------------------------------------------------------------------
-- The pad
-- ---------------------------------------------------------------------------

/-- What number output stores to: `hld` and the pad. -/
def scratch : Set Nat :=
  Set.Ico Label.hld.storage.toNat (Label.hld.storage.toNat + 4) ∪ Set.Ico pad_lo.toNat pad_hi.toNat

theorem pad_lo_toNat : pad_lo.toNat = 73852 := by decide
theorem pad_hi_toNat : pad_hi.toNat = 73980 := by decide
theorem hld_toNat : Label.hld.storage.toNat = 68100 := by decide

/-- The start of a text of `n` characters at the end of the pad. -/
def pad_start (n : Nat) : Cell := pad_hi - BitVec.ofNat 32 n

theorem pad_start_toNat (hn : n ≤ 128) : (pad_start n).toNat = pad_hi.toNat - n := by
  rw [pad_start, BitVec.toNat_sub, BitVec.toNat_ofNat]
  rw [pad_hi_toNat]
  omega

theorem pad_start_succ (n : Nat) : pad_start (n + 1) = pad_start n - 1 := by
  rw [pad_start, pad_start, BitVec.ofNat_add]
  bv_omega

theorem pad_start_writable [Board] [Sram] (hn : n ≤ 128) : Writable (pad_start n) n := by
  have hstart := pad_start_toNat hn
  rw [pad_hi_toNat] at hstart
  exact .behind (by omega) (by unfold sram_hi; omega)

theorem pad_start_readable [Board] [Sram] (hn : n ≤ 128) : Readable (pad_start n) n :=
  (pad_start_writable hn).readable

/-- The pad holds `s`. -/
structure Text (m : Memory 32) (s : List Byte) : Prop where
  length : s.length ≤ 128
  ptr : load32 m Label.hld.storage = pad_start s.length
  chars : bytes m (pad_start s.length) s.length = s

theorem Text.kept (h : Text m s) (hkeeps : Keeps W m m') (hW : ∀ n ∈ W, n ∉ scratch) : Text m' s := by
  have hlen := h.length
  have hstart := pad_start_toNat hlen
  rw [pad_hi_toNat] at hstart
  refine ⟨hlen, (hkeeps.load32 (by decide) fun n hlo hhi hn => ?_).trans h.ptr,
    (hkeeps.bytes (by omega) fun n hlo hhi hn => ?_).trans h.chars⟩
  · exact hW n hn (.inl ⟨hlo, hhi⟩)
  · exact hW n hn (.inr ⟨by rw [pad_lo_toNat]; omega, by rw [pad_hi_toNat]; omega⟩)

theorem Text.toNat_length (h : Text m s) : (BitVec.ofNat 32 s.length).toNat = s.length := by
  have := h.length
  rw [BitVec.toNat_ofNat, Nat.mod_eq_of_lt (by omega)]

/-- The memory behind `hold`. -/
def held (m : Memory 32) (n : Nat) (c : Byte) : Memory 32 :=
  store8 (store32 m Label.hld.storage (pad_start (n + 1))) (pad_start (n + 1)) c

theorem hld_keeps (m : Memory 32) (v : Cell) :
    Keeps (Set.Ico Label.hld.storage.toNat (Label.hld.storage.toNat + 4)) m
      (store32 m Label.hld.storage v) := store32_keeps v (by decide)

theorem held_keeps (hn : n < 128) : Keeps scratch m (held m n c) := by
  refine (hld_keeps m _).union ((store8_keeps c).mono ?_)
  have hstart := pad_start_toNat (n := n + 1) hn
  rintro i ⟨hlo, hhi⟩
  rw [hstart, pad_hi_toNat] at hlo hhi
  exact ⟨by rw [pad_lo_toNat]; omega, by rw [pad_hi_toNat]; omega⟩

theorem Text.held (h : Text m s) (hs : s.length < 128) : Text (held m s.length c) (c :: s) := by
  have hstart := pad_start_toNat (n := s.length + 1) hs
  have hnext : pad_start (s.length + 1) + 1 = pad_start s.length := by
    rw [pad_start_succ]
    exact BitVec.sub_add_cancel _ _
  refine ⟨hs, ?_, ?_⟩
  · refine ((store8_keeps c).load32 (by decide) fun n hlo hhi hn => ?_).trans
      (load32_store32 _ (by decide))
    have := hn.1
    rw [hstart, pad_hi_toNat] at this
    rw [hld_toNat] at hhi
    omega
  · have hkeeps := (hld_keeps m (pad_start (s.length + 1))).union
      (store8_keeps (a := pad_start (s.length + 1)) c)
    have hrest := pad_start_toNat h.length
    rw [pad_hi_toNat] at hstart hrest
    rw [List.length_cons, bytes, hnext, Scp.held, store8_same, hkeeps.bytes (by omega), h.chars]
    rintro n hlo hhi (⟨_, hn⟩ | ⟨_, hn⟩)
    · rw [hld_toNat] at hn
      omega
    · omega

theorem text_fmt_start : Text (store32 m Label.hld.storage pad_hi) [] :=
  ⟨by decide, (load32_store32 _ (by decide)).trans (BitVec.sub_zero _).symm, rfl⟩

theorem base_kept (h : Keeps scratch m m') :
    load32 m' Label.base.storage = load32 m Label.base.storage := by
  refine h.load32 (by decide) fun n hlo hhi hn => ?_
  rw [show Label.base.storage.toNat = 68092 by decide] at hlo hhi
  rcases hn with ⟨hn, _⟩ | ⟨hn, _⟩
  · rw [hld_toNat] at hn
    omega
  · rw [pad_lo_toNat] at hn
    omega

-- ---------------------------------------------------------------------------
-- The words
-- ---------------------------------------------------------------------------

section Words

variable [Board]

theorem digit_does (d : Cell) : Does .digit m [d] [char_cell d] m :=
  .of_leads rfl fun _ _ _ _ => run_leads (n := 21) rfl

theorem extract_does (hb : 0 < b.toNat) :
    Does .extract m [b, u] [char_cell (BitVec.ofNat 32 (u.toNat % b.toNat)),
      BitVec.ofNat 32 (u.toNat / b.toNat)] m := by
  refine .of_leads rfl fun ip ds rs io => ?_
  have hdiv := umdiv_mod_does (m := m) (by simpa using hb : (0 : Cell).toNat < b.toNat) u
  rw [wide, show (0 : Cell).toNat = 0 from rfl, Nat.zero_mul, Nat.zero_add] at hdiv
  calc
    Leads ⟨.rom .extract 0, b :: u :: ds, ip :: rs, m, io, none⟩
      ⟨.rom .extract 2, b :: 0 :: u :: ds, ip :: rs, m, io, none⟩ := run_leads (n := 4) rfl
    Leads _ ⟨.rom .extract 3, BitVec.ofNat 32 (u.toNat / b.toNat) ::
      BitVec.ofNat 32 (u.toNat % b.toNat) :: ds, ip :: rs, m, io, none⟩ := hdiv.at rfl
    Leads _ ⟨.rom .extract 4, BitVec.ofNat 32 (u.toNat % b.toNat) ::
      BitVec.ofNat 32 (u.toNat / b.toNat) :: ds, ip :: rs, m, io, none⟩ := run_leads (n := 1) rfl
    Leads _ ⟨.rom .extract 5, char_cell (BitVec.ofNat 32 (u.toNat % b.toNat)) ::
      BitVec.ofNat 32 (u.toNat / b.toNat) :: ds, ip :: rs, m, io, none⟩ := (digit_does _).at rfl
    Leads _ _ := run_leads (n := 1) rfl

variable [Sram]

theorem hold_does (h : Text m s) (hs : s.length < 128) (c : Cell) :
    Does .hold m [c] [] (held m s.length (c.setWidth 8)) := by
  refine .of_leads rfl fun ip ds rs io => ?_
  have hnext : load32 m Label.hld.storage - 1 = pad_start (s.length + 1) := by
    rw [h.ptr, pad_start_succ]
  have hram := (pad_start_writable hs).head (by omega)
  calc
    Leads ⟨.rom .hold 0, c :: ds, ip :: rs, m, io, none⟩
      ⟨.rom .hold 2, _ :: c :: ds, ip :: rs, m, io, none⟩ :=
        (Label.Var.of_isVar rfl).fetch rfl rfl
    Leads _ ⟨.rom .hold 3, 1 :: _ :: c :: ds, ip :: rs, m, io, none⟩ :=
      run_leads (n := 3) rfl
    Leads _ ⟨.rom .hold 4, pad_start (s.length + 1) :: c :: ds, ip :: rs, m, io,
      none⟩ := by
        rw [← hnext]
        exact sub_does.at rfl
    Leads _ ⟨.rom .hold 5, pad_start (s.length + 1) :: pad_start (s.length + 1) ::
      c :: ds, ip :: rs, m, io, none⟩ := run_leads (n := 1) rfl
    Leads _ ⟨.rom .hold 7, pad_start (s.length + 1) :: c :: ds, ip :: rs, _, io,
      none⟩ := (Label.Var.of_isVar (l := .hld) rfl).set rfl rfl
    Leads _ ⟨.rom .hold 8, ds, ip :: rs, held m s.length (c.setWidth 8), io, none⟩ :=
      (cstore_does hram).at rfl
    Leads _ _ := run_leads (n := 1) rfl

theorem fmt_digit_does {b : Cell} (hbase : load32 m Label.base.storage = b) (hb : 0 < b.toNat)
    (h : Text m s) (hs : s.length < 128) :
    Does .fmt_digit m [u] [BitVec.ofNat 32 (u.toNat / b.toNat)]
      (held m s.length (digit_char (u.toNat % b.toNat))) := by
  refine .of_leads rfl fun ip ds rs io => ?_
  have hchar := char_cell_setWidth (Nat.lt_of_le_of_lt (Nat.mod_le u.toNat b.toNat) u.isLt)
  calc
    Leads ⟨.rom .fmt_digit 0, u :: ds, ip :: rs, m, io, none⟩
      ⟨.rom .fmt_digit 2, b :: u :: ds, ip :: rs, m, io, none⟩ := by
        rw [← hbase]
        exact (Label.Var.of_isVar rfl).fetch rfl rfl
    Leads _ ⟨.rom .fmt_digit 3, char_cell (BitVec.ofNat 32 (u.toNat % b.toNat)) ::
      BitVec.ofNat 32 (u.toNat / b.toNat) :: ds, ip :: rs, m, io, none⟩ := (extract_does hb).at rfl
    Leads _ ⟨.rom .fmt_digit 4, BitVec.ofNat 32 (u.toNat / b.toNat) :: ds, ip :: rs,
      held m s.length (digit_char (u.toNat % b.toNat)), io, none⟩ := by
        rw [← hchar]
        exact (hold_does h hs _).at rfl
    Leads _ _ := run_leads (n := 1) rfl

/-- The induction is on the number that is left to print. -/
theorem fmt_number_loop {b : Cell} (hbase : load32 m Label.base.storage = b) (hb : 2 ≤ b.toNat)
    (n : Nat) (hn : n < 2 ^ 32) (h : Text m s)
    (hs : s.length + (places b.toNat n).length ≤ 128) : ∃ m', Text m' (numeral b.toNat n ++ s) ∧
      Keeps scratch m m' ∧ ∀ ip ds rs io,
        Leads ⟨.rom .fmt_number 0, BitVec.ofNat 32 n :: ds, ip :: rs, m, io, none⟩
          ⟨ip, 0 :: ds, rs, m', io, none⟩ := by
  induction n using Nat.strong_induction_on generalizing m s with
  | _ n ih =>
  have hcons := places_cons hb n
  have hdigits : 0 < (places b.toNat n).length := by rw [hcons]; simp
  have hcell : (BitVec.ofNat 32 n).toNat = n := Nat.mod_eq_of_lt hn
  have hdigit := fmt_digit_does (u := BitVec.ofNat 32 n) hbase (by omega) h (by omega)
  rw [hcell] at hdigit
  have htext := h.held (c := digit_char (n % b.toNat)) (by omega)
  have hkeeps := held_keeps (m := m) (c := digit_char (n % b.toNat)) (n := s.length) (by omega)
  have hpass (ip ds rs io) : Leads ⟨.rom .fmt_number 0, BitVec.ofNat 32 n :: ds, ip :: rs, m, io, none⟩
      ⟨.rom .fmt_number 3, BitVec.ofNat 32 (n / b.toNat) :: BitVec.ofNat 32 (n / b.toNat) :: ds,
        ip :: rs, held m s.length (digit_char (n % b.toNat)), io, none⟩ :=
    (run_leads (n := 1) rfl).trans ((hdigit.at rfl).trans (run_leads (n := 1) rfl))
  by_cases hzero : n / b.toNat = 0
  · rw [if_pos hzero] at hcons
    refine ⟨_, ?_, hkeeps, fun ip ds rs io => (hpass ip ds rs io).trans ?_⟩
    · rw [numeral, hcons]
      exact htext
    · rw [hzero]
      exact (qbranch_taken rfl rfl rfl).trans (run_leads (n := 2) rfl)
  · rw [if_neg hzero] at hcons
    have hless : n / b.toNat < n :=
      Nat.div_lt_self (Nat.pos_of_ne_zero (by rintro rfl; simp at hzero)) hb
    rw [hcons, List.length_cons] at hs
    obtain ⟨m', htext', hkeeps', hleads⟩ := ih _ hless ((base_kept hkeeps).trans hbase)
      (Nat.lt_trans hless hn) htext (by rw [List.length_cons]; omega)
    refine ⟨m', ?_, hkeeps.trans hkeeps', fun ip ds rs io => (hpass ip ds rs io).trans ?_⟩
    · rw [numeral, hcons]
      simpa [numeral] using htext'
    · have hne : BitVec.ofNat 32 (n / b.toNat) ≠ 0 := by
        intro h0
        have := congrArg BitVec.toNat h0
        rw [BitVec.toNat_ofNat, Nat.mod_eq_of_lt (Nat.lt_trans hless hn)] at this
        exact hzero this
      exact (qbranch_passed rfl hne).trans ((run_leads (n := 1) rfl).trans (hleads ip ds rs io))

theorem fmt_number_does (hb : 2 ≤ (load32 m Label.base.storage).toNat) (u : Cell) (h : Text m []) :
    ∃ m', Does .fmt_number m [u] [0] m' ∧
      Text m' (numeral (load32 m Label.base.storage).toNat u.toNat) ∧ Keeps scratch m m' := by
  have hlength := length_places hb u.isLt (by decide)
  obtain ⟨m', htext, hkeeps, hleads⟩ := fmt_number_loop rfl hb u.toNat u.isLt h (by simp; omega)
  rw [List.append_nil] at htext
  refine ⟨m', .of_leads rfl fun ip ds rs io => ?_, htext, hkeeps⟩
  have := hleads ip ds rs io
  rwa [BitVec.ofNat_toNat, BitVec.setWidth_eq] at this

theorem fmt_start_does : Does .fmt_start m [] [] (store32 m Label.hld.storage pad_hi) :=
  .of_leads rfl fun ip ds rs io =>
    calc
      Leads ⟨.rom .fmt_start 0, ds, ip :: rs, m, io, none⟩
        ⟨.rom .fmt_start 1, pad_hi :: ds, ip :: rs, m, io, none⟩ := run_leads (n := 3) rfl
      Leads _ ⟨.rom .fmt_start 3, ds, ip :: rs, _, io, none⟩ :=
        (Label.Var.of_isVar (l := .hld) rfl).set rfl rfl
      Leads _ _ := run_leads (n := 1) rfl

theorem fmt_end_does (h : Text m s) :
    Does .fmt_end m [x] [BitVec.ofNat 32 s.length, pad_start s.length] m := by
  refine .of_leads rfl fun ip ds rs io => ?_
  have hlength : pad_hi - pad_start s.length = BitVec.ofNat 32 s.length := by
    rw [pad_start]
    bv_omega
  rw [← hlength]
  calc
    Leads ⟨.rom .fmt_end 0, x :: ds, ip :: rs, m, io, none⟩
      ⟨.rom .fmt_end 1, ds, ip :: rs, m, io, none⟩ := run_leads (n := 1) rfl
    Leads _ ⟨.rom .fmt_end 3, pad_start s.length :: ds, ip :: rs, m, io, none⟩ := by
      rw [← h.ptr]
      exact (Label.Var.of_isVar rfl).fetch rfl rfl
    Leads _ ⟨.rom .fmt_end 5, pad_start s.length :: pad_hi :: pad_start s.length :: ds, ip :: rs, m,
      io, none⟩ := run_leads (n := 4) rfl
    Leads _ ⟨.rom .fmt_end 6, (pad_hi - pad_start s.length) :: pad_start s.length :: ds, ip :: rs, m,
      io, none⟩ := sub_does.at rfl
    Leads _ _ := run_leads (n := 1) rfl

/-- The text is in the pad, so the emitter has to rest on other memory. -/
theorem type_text_acts (E : Emitter) (hE : ∀ k ∈ scratch, k ∉ E.footprint) (htext : Text u.mem s)
    (h : E.Ready u) :
    Acts .type u [BitVec.ofNat 32 s.length, pad_start s.length] [] (E.say u (chars s)) := by
  have hstart := pad_start_toNat htext.length
  have hlength := htext.toNat_length
  have hapart : Apart E.footprint (pad_start s.length) s.length := by
    intro i hi hmem
    have := htext.length
    refine hE _ (.inr ?_) hmem
    rw [toNat_add_ofNat (by rw [hstart, pad_hi_toNat]; omega), hstart, pad_hi_toNat, pad_lo_toNat]
    exact ⟨by omega, by omega⟩
  have htype := type_acts E (BitVec.ofNat 32 s.length) h (a := pad_start s.length)
    (by rw [hlength]; exact pad_start_readable htext.length) (by rwa [hlength])
  rwa [hlength, htext.chars] at htype

theorem udot_acts (E : Emitter) (hE : ∀ k ∈ scratch, k ∉ E.footprint)
    {m m₁ m₂ : Memory 32} {io : Io} (hstart : Does .fmt_start m [] [] m₁)
    (hnumber : Does .fmt_number m₁ [u] [0] m₂) (htext : Text m₂ s) (h : E.Ready ⟨m₂, io⟩) :
    Acts .udot ⟨m, io⟩ [u] [] (E.say ⟨m₂, io⟩ (0x20 :: chars s)) := by
  refine .of_leads rfl fun ip ds rs => ?_
  have htype := type_text_acts E hE
    (htext.kept (E.keeps (c := 0x20) h) fun n hn hmem => hE n hmem hn) (E.ready h)
  calc
    Leads ⟨.rom .udot 0, u :: ds, ip :: rs, m, io, none⟩
      ⟨.rom .udot 1, u :: ds, ip :: rs, m₁, io, none⟩ := hstart.at rfl
    Leads _ ⟨.rom .udot 2, 0 :: ds, ip :: rs, m₂, io, none⟩ := hnumber.at rfl
    Leads _ ⟨.rom .udot 3, BitVec.ofNat 32 s.length :: pad_start s.length :: ds, ip :: rs, m₂, io,
      none⟩ := (fmt_end_does htext).at rfl
    Leads _ ⟨.rom .udot 4, BitVec.ofNat 32 s.length :: pad_start s.length :: ds, ip :: rs,
      (E.out ⟨m₂, io⟩ 0x20).mem, (E.out ⟨m₂, io⟩ 0x20).io, none⟩ := (space_acts E h).at rfl
    Leads _ ⟨.rom .udot 5, ds, ip :: rs, (E.say ⟨m₂, io⟩ (0x20 :: chars s)).mem,
      (E.say ⟨m₂, io⟩ (0x20 :: chars s)).io, none⟩ := htype.at rfl
    Leads _ _ := run_leads (n := 1) rfl

/-- Every cell printed in a base is read back in that base, and the characters stay
within the pad. `udot` puts a space before the same text. -/
theorem number_printed_and_read (m : Memory 32) {b : Nat} (hb : 2 ≤ b) (hb' : b ≤ 36)
    (hbase : (load32 m Label.base.storage).toNat = b) (u : Cell) :
    ∃ m₁ m₂ a n, Delivers .fmt_start m [] [] m₁ ∧ Delivers .fmt_number m₁ [u] [0] m₂ ∧
      Delivers .fmt_end m₂ [0] [n, a] m₂ ∧ Keeps scratch m m₂ ∧
      Delivers .ask_number m₂ [n, a] [-1, u] m₂ ∧
      ∀ (E : Emitter) io, (∀ k ∈ scratch, k ∉ E.footprint) → E.Ready ⟨m, io⟩ →
        Acts .udot ⟨m, io⟩ [u] [] (E.say ⟨m₂, io⟩ (0x20 :: chars (bytes m₂ a n.toNat))) := by
  subst hbase
  have hkeeps : Keeps scratch m _ := (hld_keeps m pad_hi).mono Set.subset_union_left
  have hbase := base_kept hkeeps
  obtain ⟨m₂, hnumber, htext, hkeeps'⟩ := fmt_number_does
    (m := store32 m Label.hld.storage pad_hi) (by rwa [hbase]) u text_fmt_start
  have hlength := htext.toNat_length
  refine ⟨_, m₂, _, _, fmt_start_does.delivers (by decide), hnumber.delivers (by decide),
    (fmt_end_does htext).delivers (by decide), hkeeps.trans hkeeps', Does.delivers ?_ (by decide), ?_⟩
  · have hask := ask_number_does (.of_isVar rfl) rfl
      (BitVec.ofNat 32 (numeral _ u.toNat).length) (m := m₂)
      (a := pad_start (numeral _ u.toNat).length) (by rw [hlength]; exact pad_start_readable htext.length)
    rwa [hlength, htext.chars, base_kept hkeeps', hbase, recognised_numeral hb hb' u.isLt, flagged,
      Option.elim_some, BitVec.ofNat_toNat, BitVec.setWidth_eq] at hask
  · intro E io hE h
    rw [hlength, htext.chars]
    exact udot_acts E hE fmt_start_does hnumber htext
      (E.frame h ((hkeeps.trans hkeeps').mono hE))

end Words

namespace Printed

local instance : Board := .flat
local instance : Sram := .flat

theorem number_printed_and_read_decimal : ∃ m₁ m₂ a n,
    Delivers .fmt_start Literal.memory [] [] m₁ ∧ Delivers .fmt_number m₁ [1000] [0] m₂ ∧
      Delivers .fmt_end m₂ [0] [n, a] m₂ ∧ Keeps scratch Literal.memory m₂ ∧
      Delivers .ask_number m₂ [n, a] [-1, 1000] m₂ ∧
      ∀ (E : Emitter) io, (∀ k ∈ scratch, k ∉ E.footprint) → E.Ready ⟨Literal.memory, io⟩ →
        Acts .udot ⟨Literal.memory, io⟩ [1000] []
          (E.say ⟨m₂, io⟩ (0x20 :: chars (bytes m₂ a n.toNat))) :=
  number_printed_and_read Literal.memory (b := 10) (by decide) (by decide) Literal.base_memory 1000

end Printed

end Allwinner.Scp
