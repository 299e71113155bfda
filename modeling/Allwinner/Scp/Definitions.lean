import Allwinner.Scp.Compiler
import Allwinner.Scp.Evaluate

/-!
# Definitions

`colon` creates an entry that is not yet visible and makes the interpreter compile, until
`semicolon` makes the entry visible and ends that. Nothing else ends it.
-/

namespace Allwinner.Scp

open Library Memory
open Forth hiding ip ds rs mem io jump one two

/-- The mode set to `l`. -/
def mode_set (m : Memory 32) (l : Label) : Memory 32 :=
  store32 m Label.eval_xt.storage (l.offset.setWidth 32)

theorem mode_mode_set (m : Memory 32) (l : Label) (io : Io) :
    mode ⟨mode_set m l, io⟩ = l.offset.setWidth 32 := load32_store32 _ (by decide)

theorem mode_set_keeps (m : Memory 32) (l : Label) : Keeps Label.eval_xt.room m (mode_set m l) :=
  store32_keeps _ (by decide)

/-- What `colon` changes besides the parse variables: variables of the compiler, and memory
behind the dictionary. -/
theorem colon_cells_bounds (h : Room m (n + 15))
    (hk : k ∈ created_cells m n ∪ Label.eval_xt.room) :
    (68084 ≤ k ∧ k < 68120) ∨ ((cp m).toNat ≤ k ∧ k < (cp m).toNat + (n + 15)) := by
  have hd := entry_at_toNat h
  have he := code_at_toNat h
  obtain ((hk | hk) | ⟨hlo, hhi⟩) | hk := hk
  · have := cp_room_bounds hk
    omega
  · have := latest_room_bounds hk
    omega
  · omega
  · have := eval_xt_room_bounds hk
    omega

section Words

variable [Board] [Sram]

theorem state_compile_does : Does .state_compile m [] [] (mode_set m .compile_one_word) :=
  .of_leads rfl fun ip st rs io =>
    calc
      Leads ⟨.rom .state_compile 0, st, ip :: rs, m, io, none⟩
        ⟨.rom .state_compile 1, Label.compile_one_word.offset.setWidth 32 :: st, ip :: rs, m, io,
          none⟩ := run_leads (n := 1) rfl
      Leads _ ⟨.rom .state_compile 3, st, ip :: rs, mode_set m .compile_one_word, io, none⟩ :=
        (Label.Var.of_isVar rfl).set rfl rfl
      Leads _ _ := run_leads (n := 1) rfl

theorem state_interpret_does : Does .state_interpret m [] [] (mode_set m .interpret_one_word) :=
  .of_leads rfl fun ip st rs io =>
    calc
      Leads ⟨.rom .state_interpret 0, st, ip :: rs, m, io, none⟩
        ⟨.rom .state_interpret 1, Label.interpret_one_word.offset.setWidth 32 :: st, ip :: rs, m, io,
          none⟩ := run_leads (n := 1) rfl
      Leads _ ⟨.rom .state_interpret 3, st, ip :: rs, mode_set m .interpret_one_word, io, none⟩ :=
        (Label.Var.of_isVar rfl).set rfl rfl
      Leads _ _ := run_leads (n := 1) rfl

/-- The name of a new entry is the next word. -/
theorem new_entry_leads {w : Label} (hw : w = .colon ∨ w = .«variable») (h : Scannable m)
    (hend : ¬ AtEnd m) (hroom : Room (scanned m) ((word m).length + 15))
    (hapart : Apart (parse_cells ∪ created_cells (scanned m) (word m).length) (ptr m) (len m).toNat) :
    ∃ m', Created (scanned m) (word m) m' ∧ ∀ st rs io,
      Leads ⟨.rom w 0, st, rs, m, io, none⟩ ⟨.rom w 4, st, rs, m', io, none⟩ := by
  have hne := word_length_ne_zero hend
  have hle := gap_add_segment_le (p := isSpace) (s := text m)
  rw [length_text] at hle
  have hword : bytes (scanned m) (word_start m) (word_length m).toNat = word m :=
    word_bytes scanned_keeps fun i hi hmem => hapart i hi (.inl hmem)
  have hlen : (word m).length = (word_length m).toNat := by rw [← hword, length_bytes]
  rw [hlen] at hroom hapart
  have hread : Readable (word_start m) (word_length m).toNat := by
    rw [word_length_toNat]
    exact (h.buffer.drop _).mono (by omega)
  obtain ⟨m', hdoes, hcreated⟩ := create_dentry_does (word_length m) hroom hread (by
    intro i hi hmem
    rw [word_length_toNat] at hi
    rw [word_start, BitVec.add_assoc, ← BitVec.ofNat_add] at hmem
    exact hapart _ (by omega) (.inr hmem))
  rw [hword] at hcreated
  refine ⟨m', hcreated, fun st rs io => ?_⟩
  have hscan := scan_one_word_found h hend
  obtain rfl | rfl := hw
  · refine (hscan.at rfl).trans ((qdup_ne rfl hne).trans ((qbranch_passed rfl hne).trans ?_))
    exact hdoes.at rfl
  · refine (hscan.at rfl).trans ((qdup_ne rfl hne).trans ((qbranch_passed rfl hne).trans ?_))
    exact hdoes.at rfl

theorem colon_does (h : Scannable m) (hend : ¬ AtEnd m)
    (hroom : Room (scanned m) ((word m).length + 15))
    (hapart : Apart (parse_cells ∪ created_cells (scanned m) (word m).length) (ptr m) (len m).toNat) :
    ∃ m', Created (scanned m) (word m) m' ∧ Does .colon m [] [] (mode_set m' .compile_one_word) := by
  obtain ⟨m', hcreated, hleads⟩ := new_entry_leads (.inl rfl) h hend hroom hapart
  refine ⟨m', hcreated, .of_leads rfl fun ip st rs io => ?_⟩
  exact (hleads st _ io).trans ((state_compile_does.at rfl).trans (run_leads (n := 1) rfl))

variable {E : Emitter} {ds : List Dentry} {u v : Store} {st st₁ : List Cell}

/-- `evaluate` stops at an unknown word in the mode it met it in. No definition becomes visible
by that, but the next text is interpreted only if this one was when it failed. -/
theorem unknown_word_interpreting_iff {l : Label} {a n : Cell}
    (hpasses : Passes (u.parsing a n) st k v st₁) (hs : Interpretable E ds v) (hl : IsMode l)
    (hmode : mode v = l.offset.setWidth 32) (hend : ¬ AtEnd v.mem)
    (hnone : recognised (load32 v.scanned.mem Label.base.storage).toNat (word v.mem) = none)
    (hunknown : lookup ds (word v.mem) = none)
    (hapart : ∀ i ∈ E.footprint, i ∉ Label.eval_xt.room ∧ i ∉ Label.current.room ∧
      ∀ d ∈ ds, i ∉ d.cells) :
    ∃ w, Returns .evaluate u (n :: a :: st) w st₁ ∧
      (mode w = Label.interpret_one_word.offset.setWidth 32 ∧ Entries w.mem ds ↔
        mode v = Label.interpret_one_word.offset.setWidth 32) := by
  obtain ⟨w, hreturns, hsame, hentries⟩ :=
    unknown_word_returns hpasses hs hl hmode hend hnone hunknown hapart
  refine ⟨w, hreturns, ?_⟩
  rw [hsame]
  exact ⟨And.left, fun h => ⟨h, hentries⟩⟩

end Words

/-- Nothing the UART rests on belongs to the dictionary or to the mode. -/
theorem uart_apart [Board] [Sram] : ∀ i ∈ (uart).footprint, i ∉ Label.eval_xt.room ∧
    i ∉ Label.current.room ∧ ∀ d ∈ static_dictionary, i ∉ d.cells := by
  rintro i ⟨hlo, hhi⟩
  rw [show Label.emit_xt.storage.toNat = 68124 by decide] at hlo hhi
  refine ⟨fun hmem => ?_, fun hmem => ?_, fun d hd hmem => ?_⟩
  · have := (eval_xt_room_bounds hmem).2
    omega
  · have hcurrent := hmem.1
    rw [show Label.current.storage.toNat = 69788 by decide] at hcurrent
    omega
  · have := (static_cells d hd).2
    have := hmem.1
    omega

namespace Abandoned

local instance : Board := .flat
local instance : Sram := .flat

/-- A definition with an unknown word in it. -/
def definition : List Byte := ascii ": a ?"

theorem definition_fits : definition.length ≤ 1020 := by decide

theorem interpretable_definition : Interpretable uart static_dictionary (request definition) :=
  interpretable_request definition_fits

theorem text_definition : text (request definition).scanned.mem = ascii " a ?" := by
  rw [interpretable_definition.parsable.text_scanned, text_request definition_fits]
  decide

theorem cp_definition : (cp (scanned (request definition).scanned.mem)).toNat = 74108 := by
  have hcp : cp (request definition).mem = bss_end := variable_request definition_fits (by decide)
  have hkeeps := scanned_keeps.union (scanned_keeps (m := (request definition).scanned.mem))
  rw [cp, Label.kept hkeeps (by decide), ← cp, hcp, bss_end_toNat]
  rintro n (hn | hn) hmem
  all_goals
    have := (parse_cells_bounds hn).1
    have := (cp_room_bounds hmem).2
    omega

theorem word_definition : word (request definition).scanned.mem = ascii "a" := by
  rw [word, text_definition]
  decide

theorem room_definition : Room (scanned (request definition).scanned.mem) (1 + 15) := by
  have hcp := cp_definition
  exact ⟨by rw [hcp]; decide, by rw [hcp]; decide⟩

theorem consumed_definition : ∃ i j, Consumed mib_text definition i (request definition).scanned.mem ∧
    Consumed mib_text definition j (request definition).scanned.scanned.mem := by
  have hapart := mib_apart definition_fits
  have hfirst := (consumed_request definition_fits).scanned hapart
  exact ⟨_, _, hfirst, hfirst.scanned hapart⟩

/-- The buffer lies behind everything `colon` writes. -/
theorem definition_apart : Apart (parse_cells ∪ (created_cells (scanned (request definition).scanned.mem) 1 ∪
    Label.eval_xt.room)) mib_text definition.length := by
  have hbounds {k : Nat} := colon_cells_bounds (k := k) room_definition
  rw [cp_definition] at hbounds
  have htext : mib_text.toNat = 80900 := by decide
  intro i hi
  have hlen : definition.length = 5 := by decide
  rw [toNat_add_ofNat (by omega)]
  rintro (hmem | hmem)
  · have := parse_cells_bounds hmem
    omega
  · have := hbounds hmem
    omega

/-- The memory `colon` changes is not that of the interpreter. -/
theorem spares_definition : Spares (created_cells (scanned (request definition).scanned.mem) 1 ∪
    Label.eval_xt.room) uart static_dictionary (request definition).scanned.scanned := by
  have hbounds {k : Nat} := colon_cells_bounds (k := k) room_definition
  rw [cp_definition] at hbounds
  obtain ⟨-, j, -, hj⟩ := consumed_definition
  refine ⟨fun k hk hmem => ?_, fun k hk hmem => ?_, fun k hk hmem => ?_, fun d hd k hk hmem => ?_,
    fun k hk hmem => ?_, fun i hi hmem => hj.apart definition_apart i hi (.inr hmem)⟩
  · obtain ⟨hlo, hhi⟩ := hmem
    rw [show Label.emit_xt.storage.toNat = 68124 by decide] at hlo hhi
    have := hbounds hk
    omega
  · have := hmem.1
    have := hmem.2
    have := hbounds hk
    omega
  · obtain ⟨hlo, hhi⟩ := hmem
    rw [show Label.current.storage.toNat = 69788 by decide] at hlo hhi
    have := hbounds hk
    omega
  · have := static_cells d hd
    have := hmem.1
    have := hmem.2
    have := hbounds hk
    omega
  · have := parse_cells_bounds hmem
    have := hbounds hk
    omega

/-- The colon makes the interpreter compile, and the rest of the text is still to come. -/
theorem definition_begins : ∃ v, Passes (request definition) [] 1 v [] ∧
    Interpretable uart static_dictionary v ∧ mode v = Label.compile_one_word.offset.setWidth 32 ∧
    text v.mem = ascii " ?" := by
  have hs := interpretable_definition
  have hmode := mode_request definition_fits
  have hend : ¬ AtEnd (request definition).mem := by
    rw [AtEnd, text_request definition_fits]
    decide
  have hword : word (request definition).mem = ascii ":" := by
    rw [word, text_request definition_fits]
    decide
  have hname : ¬ AtEnd (request definition).scanned.mem := by
    rw [AtEnd, text_definition]
    decide
  have hlen : (word (request definition).scanned.mem).length = 1 := by
    rw [word_definition]
    rfl
  have hentry : lookup static_dictionary (word (request definition).mem) =
      some ⟨0x10fb0, Label.colon.offset, ascii ":"⟩ := by
    rw [hword]
    decide +kernel
  obtain ⟨i, -, hi, -⟩ := consumed_definition
  obtain ⟨m', hcreated, hcolon⟩ := colon_does hs.scanned.parsable.scannable hname
    (by rw [hlen]; exact room_definition)
    (by
      rw [hlen]
      exact hi.apart fun k hk hmem => definition_apart k hk (hmem.imp_right .inl))
  have hkeeps := hcreated.keeps.union (mode_set_keeps m' .compile_one_word)
  rw [hlen] at hkeeps
  have hspares := spares_definition
  have hexec : Executes (Dentry.token ⟨0x10fb0, Label.colon.offset, ascii ":"⟩)
      (request definition).scanned [] ⟨mode_set m' .compile_one_word, ⟨[], [], []⟩⟩ [] :=
    (hcolon.acts : Acts .colon ⟨(request definition).scanned.mem, ⟨[], [], []⟩⟩ _ _ _).executes
      (l := .colon) (by decide) []
  refine ⟨⟨mode_set m' .compile_one_word, ⟨[], [], []⟩⟩, .word .start (one_word_returns (.inl rfl) hmode
    (interpret_executes hs.parsable hend (by rw [hword]; rfl) hentry hexec)),
    hs.scanned.scanned.kept hkeeps hspares, mode_mode_set .., ?_⟩
  rw [hspares.text hkeeps, hs.scanned.parsable.text_scanned, text_definition]
  decide

/-- After the error the mode is still to compile. -/
theorem definition_abandoned : mode (with_text definition) = Label.interpret_one_word.offset.setWidth 32 ∧
    ∃ w, Returns .evaluate (with_text definition) [BitVec.ofNat 32 definition.length, mib_text] w [] ∧
      mode w = Label.compile_one_word.offset.setWidth 32 ∧
      mode w ≠ Label.interpret_one_word.offset.setWidth 32 := by
  obtain ⟨v, hpasses, hs, hmode, htext⟩ := definition_begins
  have hword : word v.mem = ascii "?" := by
    rw [word, htext]
    decide
  obtain ⟨w, hreturns, hsame, -⟩ := unknown_word_returns hpasses hs (.inr rfl) hmode
    (by rw [AtEnd, htext]; decide) (by rw [hword]; rfl) (by rw [hword]; decide +kernel)
    uart_apart
  have hstart : mode (with_text definition) = _ :=
    (mode_parsing _ _ _).symm.trans (mode_request definition_fits)
  refine ⟨hstart, w, hreturns, hsame.trans hmode, ?_⟩
  rw [hsame, hmode]
  decide

/-- Outside of a definition nothing is left behind. -/
theorem unknown_word_interpreted : ∃ w, Returns .evaluate (with_text (ascii "?")) [1, mib_text] w [] ∧
    mode w = Label.interpret_one_word.offset.setWidth 32 ∧ Entries w.mem static_dictionary := by
  have hs : (ascii "?").length ≤ 1020 := by decide
  have hmode := mode_request hs
  have hword : word (request (ascii "?")).mem = ascii "?" := by
    rw [word, text_request hs]
    decide
  obtain ⟨w, hreturns, hiff⟩ := unknown_word_interpreting_iff (u := with_text (ascii "?")) (a := mib_text)
    (n := 1) (v := request (ascii "?")) .start (interpretable_request hs) (.inl rfl) hmode
    (by rw [AtEnd, text_request hs]; decide) (by rw [hword]; rfl) (by rw [hword]; decide +kernel) uart_apart
  exact ⟨w, hreturns, hiff.mpr hmode⟩

end Abandoned

end Allwinner.Scp
