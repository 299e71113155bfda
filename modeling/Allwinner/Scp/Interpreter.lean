import Allwinner.Scp.Dictionary
import Allwinner.Scp.Numbers
import Allwinner.Scp.Output

/-!
# The outer interpreter

`interpret_one_word` and `compile_one_word` take the next word of the parse buffer, try it
as a number and look it up in the dictionary. Both share their first tokens and the report
of a word that is neither.
-/

namespace Allwinner.Scp

open Library Memory
open Forth hiding ip ds rs mem io jump one two

/-- The next word of the parse buffer. -/
def word (m : Memory 32) : List Byte :=
  ((text m).drop (gap isSpace (text m))).take (segment isSpace (text m))

def AtEnd (m : Memory 32) : Prop := segment isSpace (text m) = 0

theorem parse_cells_bounds {n : Nat} (h : n ∈ parse_cells) : 70244 ≤ n ∧ n < 70256 := by
  obtain ⟨hlo, hhi⟩ | ⟨hlo, hhi⟩ := h
  · rw [show Label.parse_len.storage.toNat = 70252 by decide] at hlo hhi
    omega
  · rw [show Label.parse_ptr.storage.toNat = 70244 by decide] at hlo hhi
    omega

instance (m : Memory 32) : Decidable (AtEnd m) := inferInstanceAs (Decidable (_ = _))

theorem word_length_toNat (m : Memory 32) : (word_length m).toNat = segment isSpace (text m) := by
  have hle := gap_add_segment_le (p := isSpace) (s := text m)
  rw [length_text] at hle
  have := (len m).isLt
  rw [word_length, BitVec.toNat_ofNat]
  omega

theorem word_length_ne_zero {m : Memory 32} (hend : ¬ AtEnd m) : word_length m ≠ 0 := by
  intro hzero
  have := congrArg BitVec.toNat hzero
  rw [word_length_toNat] at this
  exact hend this

/-- What is left of the buffer behind the next word. -/
theorem len_scanned_toNat (m : Memory 32) : (len (scanned m)).toNat =
    (len m).toNat - (gap isSpace (text m) + segment isSpace (text m)) := by
  have hle := gap_add_segment_le (p := isSpace) (s := text m)
  rw [length_text] at hle
  rw [len_scanned, word_length, sub_ofNat_toNat, sub_ofNat_toNat] <;> try rw [sub_ofNat_toNat]
  all_goals omega

theorem ptr_scanned_eq (m : Memory 32) : ptr (scanned m) =
    ptr m + BitVec.ofNat 32 (gap isSpace (text m) + segment isSpace (text m)) := by
  rw [ptr_scanned, word_start, word_length, BitVec.add_assoc, ← BitVec.ofNat_add]

theorem apart_scanned {m : Memory 32} (h : Apart W (ptr m) (len m).toNat) :
    Apart W (ptr (scanned m)) (len (scanned m)).toNat := by
  rw [ptr_scanned_eq, len_scanned_toNat]
  intro i hi
  rw [BitVec.add_assoc, ← BitVec.ofNat_add]
  exact h _ (by omega)

theorem word_bytes {m m' : Memory 32}
    (h : Keeps W m m') (hbuffer : Apart W (ptr m) (len m).toNat) :
    bytes m' (word_start m) (word_length m).toNat = word m := by
  have hle := gap_add_segment_le (p := isSpace) (s := text m)
  rw [length_text] at hle
  have hword : Apart W (word_start m) (segment isSpace (text m)) := by
    intro i hi
    rw [word_start, BitVec.add_assoc, ← BitVec.ofNat_add]
    exact hbuffer _ (by omega)
  have hrest : bytes m (word_start m) (segment isSpace (text m)) = word m := by
    rw [word, word_start]
    generalize gap isSpace (text m) = i at hle
    generalize segment isSpace (text m) = k at hle
    rw [text, bytes_drop (by omega), bytes_take (by omega)]
  rw [word_length_toNat, h.bytes_apart hword, hrest]

theorem ptr_kept (h : Keeps W m m') (hW : ∀ n ∈ W, n ∉ parse_cells) : ptr m' = ptr m :=
  Label.kept h (by decide) fun n hn hmem => hW n hn (.inr hmem)

theorem len_kept (h : Keeps W m m') (hW : ∀ n ∈ W, n ∉ parse_cells) : len m' = len m :=
  Label.kept h (by decide) fun n hn hmem => hW n hn (.inl hmem)

/-- The message about a word that is neither a number nor in the dictionary. -/
def unknown_report (s : List Byte) : List Cell :=
  Label.output_list [.cr, .msg_unknown, .space, .msg_word, .space, .msg_quote] ++ chars s ++
    Label.output_list [.msg_quote, .cr]

theorem Chain.mem {ds : List Dentry} (h : Chain m a ds) (hd : d ∈ ds) : d.In m := by
  induction ds generalizing a with
  | nil => cases hd
  | cons e ds ih =>
    obtain ⟨-, he, hrest⟩ := h
    obtain rfl | hd := List.mem_cons.mp hd
    · exact he
    · exact ih hrest hd

theorem lookup_mem {ds : List Dentry} (h : lookup ds s = some d) : d ∈ ds :=
  List.mem_of_find?_eq_some h

/-- The execution token of an entry, without the immediate flag. -/
def unflagged (v : Cell) : Cell := v &&& -2

def Dentry.token (d : Dentry) : Cell := unflagged (d.xta.setWidth 32)

/-- `a` and `n` are the arguments of `evaluate`. -/
def Store.parsing (u : Store) (a n : Cell) : Store :=
  { u with mem := store32 (store32 u.mem Label.parse_len.storage n) Label.parse_ptr.storage a }

theorem parsing_keeps (u : Store) (a n : Cell) : Keeps parse_cells u.mem (u.parsing a n).mem :=
  (store32_keeps _ (by decide)).union (store32_keeps _ (by decide))

theorem ptr_parsing (u : Store) (a n : Cell) : ptr (u.parsing a n).mem = a := load32_store32 _ (by decide)

theorem len_parsing (u : Store) (a n : Cell) : len (u.parsing a n).mem = n := by
  refine (Label.kept (store32_keeps _ (by decide)) (by decide) fun k hk hmem => ?_).trans
    (load32_store32 _ (by decide))
  have hhi := hk.2
  have hlo := hmem.1
  rw [show Label.parse_len.storage.toNat = 70252 by decide] at hlo
  rw [show Label.parse_ptr.storage.toNat = 70244 by decide] at hhi
  omega

variable [Board]

/-- What the interpreter rests on. -/
structure Interpretable (E : Emitter) (ds : List Dentry) (u : Store) : Prop where
  console : Console E u
  entries : Entries u.mem ds
  readable : Readable (ptr u.mem) (len u.mem).toNat
  buffer : Apart (parse_cells ∪ E.footprint) (ptr u.mem) (len u.mem).toNat
  quiet : ∀ n ∈ parse_cells, n ∉ E.footprint
  dictionary : ∀ d ∈ ds, ∀ n ∈ parse_cells, n ∉ d.cells

/-- What finding the next word rests on. -/
structure Parsable (ds : List Dentry) (u : Store) : Prop where
  entries : Entries u.mem ds
  readable : Readable (ptr u.mem) (len u.mem).toNat
  buffer : Apart parse_cells (ptr u.mem) (len u.mem).toNat
  dictionary : ∀ d ∈ ds, ∀ n ∈ parse_cells, n ∉ d.cells

theorem Interpretable.parsable (h : Interpretable E ds u) : Parsable ds u :=
  ⟨h.entries, h.readable, fun i hi hmem => h.buffer i hi (.inl hmem), h.dictionary⟩

-- ---------------------------------------------------------------------------
-- Half words that may come from a device
-- ---------------------------------------------------------------------------

/-- What a half word loaded from `a` is, and what is left of the devices' answers. -/
def half_at (u : Store) (a : Cell) : Option (Cell × Store) :=
  match access 2 a with
  | .ram => some ((load16 u.mem a).setWidth 32, u)
  | .device => some ((u.io.load 2 a).1 &&& 0xffff, { u with io := (u.io.load 2 a).2 })
  | .hidden | .fails _ => none

section Half

variable {u u' : Store}

theorem xtaat_acts (h : half_at u a = some (v, u')) : Acts .xtaat u [a] [v] u' := by
  unfold half_at at h
  intro ip ds rs
  refine ⟨_, ?_, .refl⟩
  simp only [call, Label.prim?, Prim.turn, loading, Forth.one, List.cons_append, List.nil_append]
  split at h
  · cases h
    simp only [*]
  · cases h
    simp only [*]
  · cases h
  · cases h

theorem xtaat_stuck (h : half_at u a = none) {w : Label} {k : Nat}
    (hk : w.list[k]? = some (.xt .xtaat)) (s : Forth) :
    ¬ Steps ⟨.rom w k, a :: ds, rs, u.mem, u.io, none⟩ s := by
  unfold half_at at h
  intro hstep
  simp only [Steps, act, hk, token, call, Label.prim?, Prim.turn, loading, Forth.one] at hstep
  split at h
  · cases h
  · cases h
  · simp only [*] at hstep
    cases hstep
  · simp only [*] at hstep
    cases hstep

theorem half_at_ram (h : access 2 a = .ram) : half_at u a = some ((load16 u.mem a).setWidth 32, u) := by
  simp only [half_at, h]

theorem half_at_sent (h : half_at u a = some (v, u')) :
    ∃ inputs transfers, u' = { u with io := { u.io with inputs, transfers } } := by
  unfold half_at at h
  split at h <;> cases h
  · exact ⟨_, _, rfl⟩
  · obtain ⟨inputs, transfers, hload⟩ := u.io.load_eq 2 a
    exact ⟨inputs, transfers, by rw [hload]⟩

/-- The execution token of the entry at `a`, without the immediate flag. -/
theorem dentry_xta_acts (h : half_at u (a + 4) = some (v, u')) :
    Acts .dentry_xta u [a] [unflagged v] u' :=
  .of_leads rfl fun ip ds rs =>
    calc
      Leads ⟨.rom .dentry_xta 0, a :: ds, ip :: rs, u.mem, u.io, none⟩
        ⟨.rom .dentry_xta 1, (a + 4) :: ds, ip :: rs, u.mem, u.io, none⟩ := run_leads (n := 9) rfl
      Leads _ ⟨.rom .dentry_xta 2, v :: ds, ip :: rs, u'.mem, u'.io, none⟩ := (xtaat_acts h).at rfl
      Leads _ _ := run_leads (n := 11) rfl

end Half

-- ---------------------------------------------------------------------------
-- Errors
-- ---------------------------------------------------------------------------

section Words

variable {E : Emitter} {ds : List Dentry} {u : Store}

theorem Interpretable.word_apart (h : Interpretable E ds u) : Apart E.footprint (word_start u.mem)
    (word_length u.mem).toNat := by
  have hle := gap_add_segment_le (p := isSpace) (s := text u.mem)
  rw [length_text] at hle
  intro i hi
  rw [word_length_toNat] at hi
  rw [word_start, BitVec.add_assoc, ← BitVec.ofNat_add]
  exact fun hmem => h.buffer _ (by omega) (.inr hmem)

theorem Parsable.word_readable (h : Parsable ds u) : Readable (word_start u.mem)
    (word_length u.mem).toNat := by
  have hle := gap_add_segment_le (p := isSpace) (s := text u.mem)
  rw [length_text] at hle
  rw [word_length_toNat]
  exact (h.readable.drop _).mono (by omega)

theorem Parsable.word_scanned (h : Parsable ds u) :
    bytes (scanned u.mem) (word_start u.mem) (word_length u.mem).toNat = word u.mem :=
  word_bytes scanned_keeps h.buffer

/-- The world behind a word that was found. -/
abbrev Store.scanned (u : Store) : Store := { u with mem := Scp.scanned u.mem }

theorem Parsable.scanned (h : Parsable ds u) : Parsable ds u.scanned := by
  refine ⟨h.entries.kept scanned_keeps (fun n hn hmem => ?_) h.dictionary, ?_, apart_scanned h.buffer,
    h.dictionary⟩
  · have hlo := (parse_cells_bounds hn).1
    have hhi := hmem.2
    rw [show Label.current.storage.toNat = 69788 by decide] at hhi
    omega
  · rw [ptr_scanned_eq, len_scanned_toNat]
    exact h.readable.drop _

theorem Interpretable.scanned (h : Interpretable E ds u) : Interpretable E ds u.scanned := by
  refine ⟨⟨E.frame h.console.ready (scanned_keeps.mono h.quiet), ?_, h.console.apart⟩,
    h.parsable.scanned.entries, h.parsable.scanned.readable, apart_scanned h.buffer, h.quiet, h.dictionary⟩
  refine h.console.messages.kept scanned_keeps fun n hn hmem => ?_
  have := (parse_cells_bounds hn).1
  have := hmem.2
  omega

/-- The entry of the next word. -/
theorem Parsable.found_in (h : Parsable ds u) (hd : lookup ds (word u.mem) = some d) :
    d.In u.scanned.mem := Chain.mem h.scanned.entries (lookup_mem hd)

/-- Nothing that the interpreter rests on is in `W`. -/
structure Spares (W : Set Nat) (E : Emitter) (ds : List Dentry) (u : Store) : Prop where
  footprint : ∀ n ∈ W, n ∉ E.footprint
  messages : ∀ n ∈ W, n ∉ message_cells
  current : ∀ n ∈ W, n ∉ Label.current.room
  dictionary : ∀ d ∈ ds, ∀ n ∈ W, n ∉ d.cells
  parse : ∀ n ∈ W, n ∉ parse_cells
  buffer : Apart W (ptr u.mem) (len u.mem).toNat

theorem Spares.text (hW : Spares W E ds u) (h : Keeps W u.mem m') : text m' = text u.mem := by
  rw [Scp.text, ptr_kept h hW.parse, len_kept h hW.parse, h.bytes_apart hW.buffer]
  rfl

theorem Interpretable.kept (hs : Interpretable E ds u) (h : Keeps W u.mem m') (hW : Spares W E ds u) :
    Interpretable E ds ⟨m', io⟩ := by
  refine ⟨⟨E.frame hs.console.ready (h.mono hW.footprint), hs.console.messages.kept h hW.messages,
    hs.console.apart⟩, hs.entries.kept h hW.current hW.dictionary, ?_, ?_, hs.quiet, hs.dictionary⟩ <;>
    rw [ptr_kept h hW.parse, len_kept h hW.parse]
  · exact hs.readable
  · exact hs.buffer

/-- The word at an execution token comes back. -/
def Executes (x : Cell) (u : Store) (st : List Cell) (u' : Store) (st' : List Cell) : Prop :=
  ∀ ip rs, Leads ⟨ip, st, rs, u.mem, u.io, some (start + x)⟩ ⟨ip, st', rs, u'.mem, u'.io, none⟩

theorem Acts.executes {l : Label} (h : Acts l u pre post u') (hl : l ∈ Label.all.drop 8) (st : List Cell) :
    Executes (l.offset.setWidth 32) u (pre ++ st) u' (post ++ st) := by
  intro ip rs
  obtain ⟨t, ht, hleads⟩ := h ip st rs
  refine .head ?_ hleads
  change Steps ⟨ip, pre ++ st, rs, u.mem, u.io, some l.addr⟩ t
  simpa [Steps, act, enter, Label.ofAddr?_addr hl] using ht

variable [Sram]

theorem Parsable.scannable (h : Parsable ds u) : Scannable u.mem :=
  ⟨.of_isVar rfl, .of_isVar rfl, h.readable⟩

/-- The report of an unknown word, in each list that has it. -/
theorem unknown_leads {w : Label} {k : Nat} (st : List Cell) (rs : List Ip) (n : Cell) (h : Console E u)
    (hk : (w.list.drop k).take 9 = [.xt .cr, .xt .msg_unknown, .xt .space, .xt .msg_word, .xt .space,
      .xt .msg_quote, .xt .type, .xt .msg_quote, .xt .cr])
    (ha : Readable a n.toNat) (hapart : Apart E.footprint a n.toNat) :
    Leads ⟨.rom w k, n :: a :: st, rs, u.mem, u.io, none⟩
      ⟨.rom w (k + 9), st, rs, (E.say u (unknown_report (bytes u.mem a n.toNat))).mem,
        (E.say u (unknown_report (bytes u.mem a n.toNat))).io, none⟩ := by
  have hkeeps := E.keeps_say h.ready
    (Label.output_list [.cr, .msg_unknown, .space, .msg_word, .space, .msg_quote])
  have hfirst := outputs_lead (w := w) (k := k) (n :: a :: st) rs
    [.cr, .msg_unknown, .space, .msg_word, .space, .msg_quote] h
    (by
      have := congrArg (List.take 6) hk
      rwa [List.take_take] at this)
    (by decide)
  have hconsole := h.say (Label.output_list [.cr, .msg_unknown, .space, .msg_word, .space, .msg_quote])
  have htype : w.list[k + 6]? = some (.xt .type) := by
    have := congrArg (·[6]?) hk
    simpa [List.getElem?_take, List.getElem?_drop] using this
  have hword : Leads ⟨.rom w (k + 6), n :: a :: st, rs, _, _, none⟩ ⟨.rom w (k + 7), st, rs, _, _, none⟩ :=
    (type_acts E n hconsole.ready ha hapart).at htype
  rw [hkeeps.bytes_apart hapart] at hword
  have hlast := outputs_lead (w := w) (k := k + 7) st rs [.msg_quote, .cr]
    (hconsole.say (chars (bytes u.mem a n.toNat)))
    (by
      have := congrArg (List.drop 7) hk
      rwa [List.drop_take, List.drop_drop] at this)
    (by decide)
  rw [← E.say_append, ← E.say_append] at hlast
  rw [← E.say_append] at hword
  exact hfirst.trans (hword.trans hlast)

-- ---------------------------------------------------------------------------
-- The next word
-- ---------------------------------------------------------------------------

theorem one_word_end {w : Label} (hw : w = .interpret_one_word ∨ w = .compile_one_word)
    (h : Parsable ds u) (hend : AtEnd u.mem) : Acts w u [] [0] u := by
  have hscan := scan_one_word_end h.scannable hend
  obtain rfl | rfl := hw
  all_goals
    refine .of_leads rfl fun ip st rs => (hscan.at rfl).trans ?_
    exact (qdup_zero rfl).trans ((qbranch_taken rfl rfl rfl).trans (run_leads (n := 6) rfl))

/-- Up to the number of the next word, where interpreting and compiling are the same. -/
theorem number_leads {w : Label} (hw : w = .interpret_one_word ∨ w = .compile_one_word)
    (h : Parsable ds u) (hend : ¬ AtEnd u.mem) {b : Nat}
    (hb : (load32 u.scanned.mem Label.base.storage).toNat = b) :
    Leads ⟨.rom w 0, st, rs, u.mem, u.io, none⟩
      ⟨.rom w 6, flagged (recognised b (word u.mem)) ++ word_length u.mem :: word_start u.mem ::
        word_length u.mem :: word_start u.mem :: st, rs, u.scanned.mem, u.io, none⟩ := by
  have hlist : w.list.take 6 = Label.interpret_one_word.list.take 6 := by
    obtain rfl | rfl := hw <;> rfl
  have hget {k : Nat} (hk : k < 6) : w.list[k]? = Label.interpret_one_word.list[k]? := by
    rw [← List.getElem?_take_of_lt hk, hlist, List.getElem?_take_of_lt hk]
  have hne := word_length_ne_zero hend
  have hscan := scan_one_word_found h.scannable hend
  have hnumber := ask_number_does (.of_isVar rfl) hb (word_length u.mem) h.word_readable
  rw [h.word_scanned] at hnumber
  generalize word_length u.mem = n at *
  generalize word_start u.mem = a at *
  calc
    Leads ⟨.rom w 0, st, rs, u.mem, u.io, none⟩
      ⟨.rom w 1, n :: a :: st, rs, u.scanned.mem, u.io, none⟩ := hscan.at (hget (by decide))
    Leads _ ⟨.rom w 2, n :: n :: a :: st, rs, u.scanned.mem, u.io, none⟩ :=
      qdup_ne (hget (by decide)) hne
    Leads _ ⟨.rom w 3, n :: a :: st, rs, u.scanned.mem, u.io, none⟩ :=
      qbranch_passed (hget (by decide)) hne
    Leads _ ⟨.rom w 4, n :: a :: n :: a :: st, rs, u.scanned.mem, u.io, none⟩ :=
      twodup_does.at (hget (by decide))
    Leads _ ⟨.rom w 5, n :: a :: n :: a :: n :: a :: st, rs, u.scanned.mem, u.io, none⟩ :=
      twodup_does.at (hget (by decide))
    Leads _ _ := hnumber.at (hget (by decide))

/-- A word that is no number, up to its dictionary entry. -/
theorem entry_leads {w : Label} (hw : w = .interpret_one_word ∨ w = .compile_one_word)
    (h : Parsable ds u) (hend : ¬ AtEnd u.mem)
    (hnone : recognised (load32 u.scanned.mem Label.base.storage).toNat (word u.mem) = none) :
    Leads ⟨.rom w 0, st, rs, u.mem, u.io, none⟩
      ⟨.rom w (if w = .interpret_one_word then 17 else 18), found (lookup ds (word u.mem)) ::
        word_length u.mem :: word_start u.mem :: st, rs, u.scanned.mem, u.io, none⟩ := by
  refine (number_leads hw h hend rfl).trans ?_
  rw [hnone]
  have hentry := dentry_by_name_does h.scanned.entries (word_length u.mem) h.word_readable
  rw [h.word_scanned] at hentry
  have hmark (m : Memory 32) : Leads ⟨.rom w 6, 0 :: word_length u.mem :: word_start u.mem ::
      word_length u.mem :: word_start u.mem :: st, rs, m, u.io, none⟩
      ⟨.rom w (if w = .interpret_one_word then 16 else 17), word_length u.mem :: word_start u.mem ::
      word_length u.mem :: word_start u.mem :: st, rs, m, u.io, none⟩ := by
    obtain rfl | rfl := hw
    all_goals
      exact (qdup_zero rfl).trans ((qbranch_taken rfl rfl rfl).trans (run_leads (n := 1) rfl))
  refine (hmark _).trans ?_
  obtain rfl | rfl := hw
  all_goals exact hentry.at rfl

theorem Dentry.In.half {d : Dentry} (h : d.In m) :
    half_at ⟨m, io⟩ (d.addr + 4) = some (d.xta.setWidth 32, ⟨m, io⟩) := by
  have hadd : (d.addr + 4).toNat = d.addr.toNat + 4 := h.span.add (k := 4) (by omega)
  have haligned := h.spot.1
  obtain ⟨hlo, hhi, hstacks⟩ := h.span
  rw [half_at_ram (Spot.half ⟨by omega, by omega, by omega, by omega⟩), ← h.xta]

theorem interpret_number (h : Parsable ds u) (hend : ¬ AtEnd u.mem)
    (hv : recognised (load32 u.scanned.mem Label.base.storage).toNat (word u.mem) = some v) :
    Acts .interpret_one_word u [] [-1, BitVec.ofNat 32 v] u.scanned := by
  refine .of_leads rfl fun ip st rs => (number_leads (.inl rfl) h hend rfl).trans ?_
  rw [hv]
  refine (qdup_ne rfl (by decide)).trans ((qbranch_passed rfl (by decide)).trans ?_)
  exact run_leads (n := 15) rfl

/-- Interpreted or compiled, a word that is no number and has no entry is reported. -/
theorem one_word_unknown {w : Label} (hw : w = .interpret_one_word ∨ w = .compile_one_word)
    (h : Interpretable E ds u) (hend : ¬ AtEnd u.mem)
    (hnone : recognised (load32 u.scanned.mem Label.base.storage).toNat (word u.mem) = none)
    (hunknown : lookup ds (word u.mem) = none) :
    Acts w u [] [0] (E.say u.scanned (unknown_report (word u.mem))) := by
  have hreport {k : Nat} {st : List Cell} {rs : List Ip} (hk : (w.list.drop k).take 9 = [.xt .cr,
      .xt .msg_unknown, .xt .space, .xt .msg_word, .xt .space, .xt .msg_quote, .xt .type,
      .xt .msg_quote, .xt .cr]) := unknown_leads st rs (word_length u.mem)
    h.scanned.console hk h.parsable.word_readable h.word_apart
  simp only [h.parsable.word_scanned] at hreport
  refine .of_leads (by obtain rfl | rfl := hw <;> rfl) fun ip st rs =>
    (entry_leads hw h.parsable hend hnone).trans ?_
  rw [hunknown]
  obtain rfl | rfl := hw
  · refine (qdup_zero rfl).trans ((qbranch_taken rfl rfl rfl).trans ?_)
    refine (run_leads (n := 1) rfl).trans ((hreport (k := 30) rfl).trans ?_)
    exact run_leads (n := 4) rfl
  · refine (qdup_zero rfl).trans ((qbranch_taken rfl rfl rfl).trans ?_)
    refine (run_leads (n := 1) rfl).trans ((hreport (k := 39) rfl).trans ?_)
    exact run_leads (n := 4) rfl

theorem try_exec_dentry_leads {d : Dentry} (hd : d.In u.mem) :
    Leads ⟨.rom .try_exec_dentry 0, d.addr :: st, rs, u.mem, u.io, none⟩
      ⟨.rom .try_exec_dentry 4, st, rs, u.mem, u.io, some (start + d.token)⟩ :=
  calc
    Leads _ ⟨.rom .try_exec_dentry 1, d.addr :: d.addr :: st, rs, u.mem, u.io, none⟩ :=
      qdup_ne rfl hd.addr_ne
    Leads _ ⟨.rom .try_exec_dentry 2, d.addr :: st, rs, u.mem, u.io, none⟩ :=
      qbranch_passed rfl hd.addr_ne
    Leads _ ⟨.rom .try_exec_dentry 3, d.token :: st, rs, u.mem, u.io, none⟩ :=
      (dentry_xta_acts hd.half).at rfl
    Leads _ _ := run_leads (n := 1) rfl

/-- Up to the first token of a word with an entry. -/
theorem interpret_found (h : Parsable ds u) (hend : ¬ AtEnd u.mem)
    (hnone : recognised (load32 u.scanned.mem Label.base.storage).toNat (word u.mem) = none)
    (hd : lookup ds (word u.mem) = some d) :
    Leads ⟨.rom .interpret_one_word 0, st, rs, u.mem, u.io, none⟩
      ⟨.rom .try_exec_dentry 4, st, .rom .interpret_one_word 23 :: rs, u.scanned.mem, u.io,
        some (start + d.token)⟩ := by
  have hin := h.found_in hd
  refine (entry_leads (.inl rfl) h hend hnone).trans ?_
  rw [hd]
  refine (qdup_ne rfl hin.addr_ne).trans ((qbranch_passed rfl hin.addr_ne).trans ?_)
  exact (run_leads (n := 17) rfl).trans (try_exec_dentry_leads (u := u.scanned) hin)

theorem dentry_immediate_does {d : Dentry} (hd : d.In m) :
    Does .dentry_immediate m [d.addr] [d.xta.setWidth 32 &&& 1] m :=
  .of_leads rfl fun ip st rs io =>
    calc
      Leads ⟨.rom .dentry_immediate 0, d.addr :: st, ip :: rs, m, io, none⟩
        ⟨.rom .dentry_immediate 1, (d.addr + 4) :: st, ip :: rs, m, io, none⟩ := run_leads (n := 9) rfl
      Leads _ ⟨.rom .dentry_immediate 2, d.xta.setWidth 32 :: st, ip :: rs, m, io, none⟩ :=
        (xtaat_acts hd.half).at rfl
      Leads _ _ := run_leads (n := 5) rfl

/-- `compile_one_word` up to the immediate flag of an entry. -/
theorem compile_flag_leads (h : Parsable ds u) (hend : ¬ AtEnd u.mem)
    (hnone : recognised (load32 u.scanned.mem Label.base.storage).toNat (word u.mem) = none)
    (hd : lookup ds (word u.mem) = some d) :
    Leads ⟨.rom .compile_one_word 0, st, rs, u.mem, u.io, none⟩
      ⟨.rom .compile_one_word 25, (d.xta.setWidth 32 &&& 1) :: d.addr :: st, rs, u.scanned.mem, u.io,
        none⟩ := by
  have hin := h.found_in hd
  refine (entry_leads (.inr rfl) h hend hnone).trans ?_
  rw [hd]
  refine (qdup_ne rfl hin.addr_ne).trans ((qbranch_passed rfl hin.addr_ne).trans ?_)
  exact (run_leads (n := 17) rfl).trans ((dentry_immediate_does hin).at rfl)

theorem compile_immediate (h : Parsable ds u) (hend : ¬ AtEnd u.mem)
    (hnone : recognised (load32 u.scanned.mem Label.base.storage).toNat (word u.mem) = none)
    (hd : lookup ds (word u.mem) = some d) (hflag : d.xta.setWidth 32 &&& (1 : Cell) ≠ 0) :
    Leads ⟨.rom .compile_one_word 0, st, rs, u.mem, u.io, none⟩
      ⟨.rom .try_exec_dentry 4, st, .rom .compile_one_word 27 :: rs, u.scanned.mem, u.io,
        some (start + d.token)⟩ := by
  refine (compile_flag_leads h hend hnone hd).trans ((qbranch_passed rfl hflag).trans ?_)
  exact (run_leads (n := 1) rfl).trans (try_exec_dentry_leads (u := u.scanned) (h.found_in hd))

/-- A word that is not immediate becomes part of the definition. -/
theorem compile_word (h : Parsable ds u) (hend : ¬ AtEnd u.mem)
    (hnone : recognised (load32 u.scanned.mem Label.base.storage).toNat (word u.mem) = none)
    (hd : lookup ds (word u.mem) = some d) (hflag : d.xta.setWidth 32 &&& (1 : Cell) = 0)
    (hcompile : Acts .compile_xta u.scanned [d.token] [] u') : Acts .compile_one_word u [] [-1] u' :=
  .of_leads rfl fun ip st rs =>
    calc
      Leads _ ⟨.rom .compile_one_word 29, d.addr :: st, ip :: rs, u.scanned.mem, u.io, none⟩ :=
        (compile_flag_leads h hend hnone hd).trans (qbranch_taken rfl rfl hflag)
      Leads _ ⟨.rom .compile_one_word 30, d.addr :: st, ip :: rs, u.scanned.mem, u.io, none⟩ :=
        run_leads (n := 1) rfl
      Leads _ ⟨.rom .compile_one_word 31, d.token :: st, ip :: rs, u.scanned.mem, u.io, none⟩ :=
        (dentry_xta_acts (h.found_in hd).half).at rfl
      Leads _ ⟨.rom .compile_one_word 32, st, ip :: rs, u'.mem, u'.io, none⟩ := hcompile.at rfl
      Leads _ _ := run_leads (n := 4) rfl

/-- A number becomes a literal of the definition. -/
theorem compile_number (h : Parsable ds u) (hend : ¬ AtEnd u.mem)
    (hv : recognised (load32 u.scanned.mem Label.base.storage).toNat (word u.mem) = some v)
    (hxta : Acts .compile_xta u.scanned [Label.dolit.offset.setWidth 32] [] u')
    (hcell : Acts .compile_cell u' [BitVec.ofNat 32 v] [] u'') :
    Acts .compile_one_word u [] [-1] u'' := by
  refine .of_leads rfl fun ip st rs => (number_leads (.inr rfl) h hend rfl).trans ?_
  rw [hv]
  refine (qdup_ne rfl (by decide)).trans ((qbranch_passed rfl (by decide)).trans ?_)
  refine (run_leads (n := 2) rfl).trans ((hxta.at rfl).trans ((hcell.at rfl).trans ?_))
  exact run_leads (n := 12) rfl

end Words

end Allwinner.Scp
