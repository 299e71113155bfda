import Allwinner.Scp.Formatting

/-!
# Printing

What a run prints, and where else it writes. `.` prints what `u.` does, but in the decimal base a
number with a sign.
-/

namespace Allwinner.Scp

open Library Memory
open Forth hiding ip ds rs mem io jump one two

-- ---------------------------------------------------------------------------
-- Runs that print
-- ---------------------------------------------------------------------------

/-- Between `u` and `v` the characters `cs` are printed, and memory in `Z` may change. -/
inductive Prints [Board] (E : Emitter) (Z : Set Nat) : Store → List Cell → Store → Prop
  | quiet (h : Keeps Z u.mem v.mem) (hsent : v.io.sent = u.io.sent) : Prints E Z u [] v
  | char (c : Cell) : Prints E Z u [c] (E.out u c)
  | trans (h : Prints E Z u cs v) (h' : Prints E Z v cs' w) : Prints E Z u (cs ++ cs') w

/-- The memory number output uses. -/
def formatting : Set Nat := scratch ∪ Label.base.room

section Prints

variable [Board]

namespace Prints

variable {E : Emitter} {Z : Set Nat} {u v : Store} {cs : List Cell}

theorem say (E : Emitter) (u : Store) (cs : List Cell) : Prints E Z u cs (E.say u cs) := by
  induction cs generalizing u with
  | nil => exact .quiet .refl rfl
  | cons c cs ih => exact .trans (.char c) (ih (E.out u c))

theorem mono {Z' : Set Nat} (h : Prints E Z u cs v) (hZ : Z ⊆ Z') : Prints E Z' u cs v := by
  induction h with
  | quiet h hsent => exact .quiet (h.mono hZ) hsent
  | char c => exact .char c
  | trans _ _ ih ih' => exact ih.trans ih'

/-- The emitter stays ready if nobody else writes to its memory. -/
theorem ready (h : Prints E Z u cs v) (hZ : ∀ k ∈ Z, k ∉ E.footprint) (hu : E.Ready u) :
    E.Ready v ∧ Keeps (Z ∪ E.footprint) u.mem v.mem := by
  induction h with
  | quiet h _ => exact ⟨E.frame hu (h.mono hZ), h.mono Set.subset_union_left⟩
  | char c => exact ⟨E.ready hu, (E.keeps hu).mono Set.subset_union_right⟩
  | trans _ _ ih ih' =>
    obtain ⟨hv, hkeeps⟩ := ih hu
    obtain ⟨hw, hkeeps'⟩ := ih' hv
    exact ⟨hw, hkeeps.trans hkeeps'⟩

theorem sent [Sram] (h : Prints uart Z u cs v) : v.io.sent = u.io.sent ++ cs := by
  induction h with
  | quiet _ hsent => rw [hsent, List.append_nil]
  | char c => rfl
  | trans _ _ ih ih' => rw [ih', ih, List.append_assoc]

end Prints

end Prints

-- ---------------------------------------------------------------------------
-- Signed numbers
-- ---------------------------------------------------------------------------

/-- The number with a sign. -/
def signed_numeral (b : Nat) (u : Cell) : List Byte :=
  if u.slt 0 then 0x2d :: numeral b (-u).toNat else numeral b u.toNat

/-- What `.` prints behind the space. -/
def dot_text (b : Nat) (u : Cell) : List Byte := if b = 10 then signed_numeral 10 u else numeral b u.toNat

theorem length_numeral (hb : 2 ≤ b) (u : Cell) : (numeral b u.toNat).length ≤ 32 := by
  rw [numeral, List.length_map, List.length_reverse]
  exact length_places hb u.isLt (by decide)

section Words

variable [Board]

theorem abs_does (u : Cell) : Does .abs m [u] [if u.slt 0 then -u else u] m := by
  refine .of_leads rfl fun ip ds rs io => ?_
  have hflag : Leads ⟨.rom .abs 0, u :: ds, ip :: rs, m, io, none⟩
      ⟨.rom .abs 2, flag (u.slt 0) :: u :: ds, ip :: rs, m, io, none⟩ := run_leads (n := 2) rfl
  by_cases h : u.slt 0 = true
  · rw [if_pos h]
    refine hflag.trans ((qbranch_passed rfl (flag_ne_zero.mpr h)).trans ?_)
    exact (negate_does.at rfl).trans (run_leads (n := 2) rfl)
  · rw [if_neg h]
    refine hflag.trans ((qbranch_taken rfl rfl (flag_eq_zero.mpr (Bool.not_eq_true _ ▸ h))).trans ?_)
    exact run_leads (n := 2) rfl

variable [Sram] {s : List Byte}

theorem fmt_sign_does (h : Text m s) (hs : s.length < 128) (u : Cell) : ∃ m', Does .fmt_sign m [u] [] m' ∧
    Text m' (if u.slt 0 then 0x2d :: s else s) ∧ Keeps scratch m m' := by
  have hflag (ip : Ip) (ds : List Cell) (rs : List Ip) (io : Io) :
      Leads ⟨.rom .fmt_sign 0, u :: ds, ip :: rs, m, io, none⟩
        ⟨.rom .fmt_sign 1, flag (u.slt 0) :: ds, ip :: rs, m, io, none⟩ := run_leads (n := 1) rfl
  by_cases hu : u.slt 0 = true
  · refine ⟨_, .of_leads rfl fun ip ds rs io => ?_, by rw [if_pos hu]; exact h.held hs, held_keeps hs⟩
    calc
      Leads _ ⟨.rom .fmt_sign 2, ds, ip :: rs, m, io, none⟩ :=
        (hflag ip ds rs io).trans (qbranch_passed rfl (flag_ne_zero.mpr hu))
      Leads _ ⟨.rom .fmt_sign 3, 0x2d :: ds, ip :: rs, m, io, none⟩ := run_leads (n := 3) rfl
      Leads _ ⟨.rom .fmt_sign 4, ds, ip :: rs, held m s.length 0x2d, io, none⟩ := (hold_does h hs 0x2d).at rfl
      Leads _ _ := run_leads (n := 2) rfl
  · refine ⟨m, .of_leads rfl fun ip ds rs io => ?_, by rw [if_neg hu]; exact h, .refl⟩
    refine (hflag ip ds rs io).trans ((qbranch_taken rfl rfl (flag_eq_zero.mpr (Bool.not_eq_true _ ▸ hu))).trans ?_)
    exact run_leads (n := 2) rfl

theorem signed_str_does {b : Nat} (hb : 2 ≤ b) (hbase : (load32 m Label.base.storage).toNat = b) (u : Cell) :
    ∃ m', Does .signed_str m [u] [BitVec.ofNat 32 (signed_numeral b u).length,
        pad_start (signed_numeral b u).length] m' ∧ Text m' (signed_numeral b u) ∧ Keeps scratch m m' := by
  subst hbase
  have hstart : Keeps scratch m (store32 m Label.hld.storage pad_hi) :=
    (hld_keeps m pad_hi).mono Set.subset_union_left
  obtain ⟨m₁, hnumber, htext, hkeeps⟩ := fmt_number_does (m := store32 m Label.hld.storage pad_hi)
    (by rwa [base_kept hstart]) (if u.slt 0 then -u else u) text_fmt_start
  rw [base_kept hstart] at htext
  have hlength := length_numeral hb (if u.slt 0 then -u else u)
  obtain ⟨m₂, hsign, htext', hkeeps'⟩ := fmt_sign_does htext (by omega) u
  have hsigned : (if u.slt 0 then 0x2d :: numeral (load32 m Label.base.storage).toNat (if u.slt 0 then -u else u).toNat
      else numeral (load32 m Label.base.storage).toNat (if u.slt 0 then -u else u).toNat) =
      signed_numeral (load32 m Label.base.storage).toNat u := by
    unfold signed_numeral
    split <;> rfl
  rw [hsigned] at htext'
  refine ⟨m₂, .of_leads rfl fun ip ds rs io => ?_, htext', (hstart.trans hkeeps).trans hkeeps'⟩
  calc
    Leads ⟨.rom .signed_str 0, u :: ds, ip :: rs, m, io, none⟩
      ⟨.rom .signed_str 2, u :: ds, .ram u :: ip :: rs, m, io, none⟩ := run_leads (n := 2) rfl
    Leads _ ⟨.rom .signed_str 3, (if u.slt 0 then -u else u) :: ds, .ram u :: ip :: rs, m, io, none⟩ :=
      (abs_does u).at rfl
    Leads _ ⟨.rom .signed_str 4, (if u.slt 0 then -u else u) :: ds, .ram u :: ip :: rs,
      store32 m Label.hld.storage pad_hi, io, none⟩ := fmt_start_does.at rfl
    Leads _ ⟨.rom .signed_str 5, 0 :: ds, .ram u :: ip :: rs, m₁, io, none⟩ := hnumber.at rfl
    Leads _ ⟨.rom .signed_str 6, u :: 0 :: ds, ip :: rs, m₁, io, none⟩ := run_leads (n := 1) rfl
    Leads _ ⟨.rom .signed_str 7, 0 :: ds, ip :: rs, m₂, io, none⟩ := hsign.at rfl
    Leads _ ⟨.rom .signed_str 8, BitVec.ofNat 32 (signed_numeral _ u).length ::
      pad_start (signed_numeral _ u).length :: ds, ip :: rs, m₂, io, none⟩ := (fmt_end_does htext').at rfl
    Leads _ _ := run_leads (n := 1) rfl

/-- `.` prints a space and the number. It stores to the pad. -/
theorem dot_acts (E : Emitter) (hE : ∀ k ∈ scratch, k ∉ E.footprint) {b : Nat} (hb : 2 ≤ b)
    (hbase : (load32 m Label.base.storage).toNat = b) (u : Cell) (h : E.Ready ⟨m, io⟩) :
    ∃ m', Keeps scratch m m' ∧ Acts .dot ⟨m, io⟩ [u] [] (E.say ⟨m', io⟩ (0x20 :: chars (dot_text b u))) := by
  have hten : load32 m Label.base.storage ^^^ 10 = 0 ↔ b = 10 := by
    rw [show (0 : Cell) = 0#32 from rfl, BitVec.xor_eq_zero_iff, ← BitVec.toNat_inj, hbase]
    rfl
  have hxor (ip : Ip) (ds : List Cell) (rs : List Ip) : Leads ⟨.rom .dot 0, u :: ds, ip :: rs, m, io, none⟩
      ⟨.rom .dot 4, (load32 m Label.base.storage ^^^ 10) :: u :: ds, ip :: rs, m, io, none⟩ :=
    Relation.ReflTransGen.trans ((Label.Var.of_isVar (l := .base) rfl).fetch rfl rfl) (run_leads (n := 4) rfl)
  by_cases hdecimal : b = 10
  · obtain ⟨m', hstr, htext, hkeeps⟩ := signed_str_does hb hbase u
    have hready : E.Ready ⟨m', io⟩ := E.frame h (hkeeps.mono hE)
    have htype := type_text_acts E hE
      (htext.kept (E.keeps (c := 0x20) hready) fun n hn hmem => hE n hmem hn) (E.ready hready)
    subst hdecimal
    refine ⟨m', hkeeps, .of_leads rfl fun ip ds rs => ?_⟩
    calc
      Leads _ ⟨.rom .dot 7, u :: ds, ip :: rs, m, io, none⟩ :=
        (hxor ip ds rs).trans (qbranch_taken rfl rfl (hten.mpr rfl))
      Leads _ ⟨.rom .dot 8, u :: ds, ip :: rs, m, io, none⟩ := run_leads (n := 1) rfl
      Leads _ ⟨.rom .dot 9, BitVec.ofNat 32 (signed_numeral 10 u).length ::
        pad_start (signed_numeral 10 u).length :: ds, ip :: rs, m', io, none⟩ := hstr.at rfl
      Leads _ ⟨.rom .dot 10, BitVec.ofNat 32 (signed_numeral 10 u).length ::
        pad_start (signed_numeral 10 u).length :: ds, ip :: rs, (E.out ⟨m', io⟩ 0x20).mem,
        (E.out ⟨m', io⟩ 0x20).io, none⟩ := (space_acts E hready).at rfl
      Leads _ ⟨.rom .dot 11, ds, ip :: rs, (E.say ⟨m', io⟩ (0x20 :: chars (signed_numeral 10 u))).mem,
        (E.say ⟨m', io⟩ (0x20 :: chars (signed_numeral 10 u))).io, none⟩ := htype.at rfl
      Leads _ _ := run_leads (n := 1) rfl
  · have hstart : Keeps scratch m (store32 m Label.hld.storage pad_hi) :=
      (hld_keeps m pad_hi).mono Set.subset_union_left
    obtain ⟨m', hnumber, htext, hkeeps⟩ := fmt_number_does (m := store32 m Label.hld.storage pad_hi)
      (by rwa [base_kept hstart, hbase]) u text_fmt_start
    rw [base_kept hstart, hbase] at htext
    have hready : E.Ready ⟨m', io⟩ := E.frame h ((hstart.trans hkeeps).mono hE)
    have hprint := udot_acts E hE fmt_start_does hnumber htext hready
    rw [dot_text, if_neg hdecimal]
    refine ⟨m', hstart.trans hkeeps, .of_leads rfl fun ip ds rs => ?_⟩
    calc
      Leads _ ⟨.rom .dot 5, u :: ds, ip :: rs, m, io, none⟩ :=
        (hxor ip ds rs).trans (qbranch_passed rfl fun h0 => hdecimal (hten.mp h0))
      Leads _ ⟨.rom .dot 6, ds, ip :: rs, _, _, none⟩ := hprint.at rfl
      Leads _ _ := run_leads (n := 1) rfl

theorem decimal_does : Does .decimal m [] [] (store32 m Label.base.storage 10) := by
  refine .of_leads rfl fun ip ds rs io => ?_
  calc
    Leads ⟨.rom .decimal 0, ds, ip :: rs, m, io, none⟩
      ⟨.rom .decimal 1, 10 :: ds, ip :: rs, m, io, none⟩ := run_leads (n := 3) rfl
    Leads _ ⟨.rom .decimal 3, ds, ip :: rs, store32 m Label.base.storage 10, io, none⟩ :=
      (Label.Var.of_isVar rfl).set rfl rfl
    Leads _ _ := run_leads (n := 1) rfl

end Words

end Allwinner.Scp
