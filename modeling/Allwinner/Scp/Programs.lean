import Allwinner.Library.Procedures
import Allwinner.Scp.Implementation

/-!
# Programs

A text of several definitions. Each body is compiled with the words before it in the vocabulary,
and behind their code. In the end every word does what its body means, where a call of another
word of the program means that one's body.
-/

namespace Allwinner.Scp

open Library Memory
open Library.Structured (Prog Meaning Counts Means Calls runs)
open Forth hiding ip ds rs mem io jump one two

-- ---------------------------------------------------------------------------
-- The layout of a program
-- ---------------------------------------------------------------------------

/-- The words of a text and their bodies. -/
abbrev Program := List (List Byte × Source)

def Program.tokens (prog : Program) : List (List Byte) :=
  prog.flatMap fun p => ascii ":" :: p.1 :: (Scp.tokens p.2 ++ [ascii ";"])

/-- Where the code of `w` goes if the compile pointer is at `c`. -/
def code_from (c : Cell) (w : List Byte) : Cell := cell_align (cell_align c + BitVec.ofNat 32 (7 + w.length))

def entry_from (c : Cell) (w : List Byte) : Dentry := ⟨cell_align c, xta (code_from c w), w⟩

/-- Where the next definition starts. -/
def code_end (c : Cell) (w : List Byte) (body : Body) : Cell := pos (code_from c w) (body.size sizes + 2)

/-- An entry and what its code was compiled from. -/
abbrev Definition := Dentry × Body

/-- The entries of a program and their bodies, in the order of the text. -/
def elaborate (b : Nat) : Cell → List Dentry → Program → Option (List Definition)
  | _, _, [] => some []
  | c, ds, (w, src) :: prog => do
    let body ← src.traverse (resolve b ds)
    let defs ← elaborate b (code_end c w body) (entry_from c w :: ds) prog
    return (entry_from c w, body) :: defs

theorem elaborate_cons : elaborate b c ds ((w, src) :: prog) = some defs ↔
    ∃ body defs', src.traverse (resolve b ds) = some body ∧
      elaborate b (code_end c w body) (entry_from c w :: ds) prog = some defs' ∧
      defs = (entry_from c w, body) :: defs' := by
  simp only [elaborate, Option.bind_eq_bind, Option.bind_eq_some_iff, Option.pure_def, Option.some.injEq,
    eq_comm (b := defs)]
  exact ⟨fun ⟨body, hbody, defs', hdefs', h⟩ => ⟨body, defs', hbody, hdefs', h⟩,
    fun ⟨body, defs', hbody, hdefs', h⟩ => ⟨body, hbody, defs', hdefs', h⟩⟩

/-- The bytes of a program at most. -/
def program_size (defs : List Definition) : Nat := (defs.map fun x => definition_size x.1.name x.2).sum

/-- What can be found by name behind a program. -/
def vocabulary (defs : List Definition) (ds : List Dentry) : List Dentry := (defs.map Prod.fst).reverse ++ ds

theorem vocabulary_cons (x : Definition) (defs : List Definition) (ds : List Dentry) :
    vocabulary (x :: defs) ds = vocabulary defs (x.1 :: ds) := by
  rw [vocabulary, vocabulary, List.map_cons, List.reverse_cons, List.append_assoc]
  rfl

theorem entry_known (c : Cell) {w : List Byte} (h : w.length < 256) : (entry_from c w).known = w :=
  Dentry.known_eq h

theorem lookup_cons_ne (ds : List Dentry) (h : d.known ≠ t) : lookup (d :: ds) t = lookup ds t := by
  rw [lookup, List.find?_cons, beq_eq_false_iff_ne.mpr h]
  rfl

theorem lookup_entry (ds : List Dentry) (c : Cell) {w : List Byte} (h : w.length < 256) :
    lookup (entry_from c w :: ds) w = some (entry_from c w) := lookup_self (d := entry_from c w) h

theorem lookup_entry_ne (ds : List Dentry) (c : Cell) {w : List Byte} (h : w.length < 256) (hne : w ≠ t) :
    lookup (entry_from c w :: ds) t = lookup ds t := lookup_cons_ne ds (by rwa [entry_known c h])

-- ---------------------------------------------------------------------------
-- The meaning of a program
-- ---------------------------------------------------------------------------

/-- The code of all words stands where their tokens are. -/
def Standing (defs : List Definition) (m : Memory 32) : Prop :=
  ∀ x ∈ defs, Code m (start + x.1.token) (definition_code (start + x.1.token) x.2)

/-- A word is called with an empty part of the return stack, and with the code in place. -/
def called (defs : List Definition) (R : Local → Local → Prop) (s t : Local) : Prop :=
  Standing defs s.mem ∧ R { s with rs := [] } { t with rs := [] } ∧ t.rs = s.rs ∧ Standing defs t.mem

/-- The words by their execution tokens, the newest one first. -/
def procedures (defs : List Definition) : List (Atom × Body) :=
  (defs.map fun x => (.xt x.1.xta, x.2)).reverse

section Words

variable [Board]

/-- What a body means within a program. -/
abbrev ProgramMeans (defs : List Definition) : Body → Local → Local → Prop :=
  Calls (counts (Standing defs)) (called defs) (procedures defs)

/-- The interpreter in front of `ts`. -/
structure Idle (ds : List Dentry) (b : Nat) (ts : List (List Byte)) (u : Store) : Prop where
  vocabulary : Vocabulary u.mem ds
  mode : mode u = Label.interpret_one_word.offset.setWidth 32
  base : (load32 u.mem Label.base.storage).toNat = b
  reading : Reading ∅ ts u

/-- What numbers and words do one after the other. Words leave the interpreter alone. -/
inductive Interprets (ds : List Dentry) (b : Nat) :
    List (List Byte) → Store → List Cell → Store → List Cell → Prop
  | done : Interprets ds b [] u st u st
  | number (hv : recognised b t = some x)
    (hrest : Interprets ds b ts u.scanned (BitVec.ofNat 32 x :: st) w st₂) : Interprets ds b (t :: ts) u st w st₂
  | word (hnone : recognised b t = none) (hd : lookup ds t = some d)
    (hcomputes : Computes (start + d.token) ⟨st, [], u.scanned.mem, u.io⟩ ⟨st₁, [], v.mem, v.io⟩)
    (hidle : Idle ds b ts v) (hrest : Interprets ds b ts v st₁ w st₂) : Interprets ds b (t :: ts) u st w st₂

variable [Sram] {defs : List Definition}

/-- A called word does what its body means. -/
theorem called_computes {s t : Local} (hplain : ∀ x ∈ defs, x.1.token = x.1.xta.setWidth 32) (hx : x ∈ defs)
    (h : called defs (ProgramMeans defs x.2) s t) : Computes (start + x.1.token) s t := by
  -- a body that means something by what its words do at all is implemented by its code
  have hbody : ∀ x ∈ defs, ∀ s t : Local,
      called defs (Means ((counts (Standing defs)).withRun (meaning (Standing defs)).run) x.2) s t →
      Computes (start + x.1.token) s t := by
    rintro x hx ⟨ds, rs, m, io⟩ ⟨ds', rs', m', io'⟩ ⟨hs, hmeans, hrs, -⟩
    obtain rfl : rs' = rs := hrs
    have hown : Means (counts fun m => Code m (start + x.1.token) (definition_code (start + x.1.token) x.2))
        x.2 ⟨ds, [], m, io⟩ ⟨ds', [], m', io'⟩ := hmeans.mono fun w s t h => by
      cases w with
      | lit v => exact h
      | xt x' => exact ⟨h.1, h.2 x hx⟩
    exact (implements (start + x.1.token) x.2).returns (hs x hx) hown _
  obtain ⟨hs, hmeans, hrs, ht⟩ := h
  refine hbody x hx s t ⟨hs, hmeans.mono (Structured.runs_le ?_ (fun _ _ _ h => h) ?_), hrs, ht⟩
  · rintro R R' hR s t ⟨hs, h, hrs, ht⟩
    exact ⟨hs, hR _ _ h, hrs, ht⟩
  · intro p hp s t h
    obtain ⟨x, hx, rfl⟩ := List.mem_map.mp (List.mem_reverse.mp hp)
    refine ⟨?_, h.2.2.2⟩
    rw [← hplain x hx]
    exact hbody x hx s t h

-- ---------------------------------------------------------------------------
-- Reading a program
-- ---------------------------------------------------------------------------

/-- No control structure and no colon, as far as it is looked up. -/
def Dentry.Spares (d : Dentry) : Prop := d.known ∉ ascii ":" :: control_words.map Prod.fst

instance (d : Dentry) : Decidable d.Spares := inferInstanceAs (Decidable (¬ _))

omit [Board] [Sram] in
theorem Controls.cons {ds : List Dentry} (h : Controls ds) (hd : d.Spares) : Controls (d :: ds) := by
  have hother {w : List Byte} (hw : w ∈ ascii ":" :: control_words.map Prod.fst) :
      lookup (d :: ds) w = lookup ds w := lookup_cons_ne ds fun heq => hd (heq ▸ hw)
  refine ⟨?_, fun x hx => ?_⟩
  · rw [hother List.mem_cons_self]
    exact h.colon
  · rw [hother (List.mem_cons_of_mem _ (List.mem_map_of_mem hx))]
    exact h.immediate x hx

variable {ds : List Dentry} {b e : Nat} {prog : Program} {ts : List (List Byte)} {u v : Store}

/-- The text goes on with a program, and then with `ts`. -/
structure Loadable (ds : List Dentry) (b : Nat) (prog : Program) (defs : List Definition)
    (ts : List (List Byte)) (e : Nat) (u : Store) : Prop where
  vocabulary : Vocabulary u.mem ds
  controls : Controls ds
  mode : mode u = Label.interpret_one_word.offset.setWidth 32
  base : (load32 u.mem Label.base.storage).toNat = b
  elaborated : elaborate b (cp u.mem) ds prog = some defs
  spares : ∀ x ∈ defs, x.1.Spares
  fits : (cp u.mem).toNat + program_size defs ≤ e
  even : e % 2 = 0
  high : e ≤ sram_hi
  reading : Reading (defining (cp u.mem) (e - (cp u.mem).toNat)) (prog.tokens ++ ts) u

/-- A program later. -/
structure Loads (ds : List Dentry) (b : Nat) (defs : List Definition) (ts : List (List Byte)) (e : Nat)
    (u v : Store) : Prop where
  vocabulary : Vocabulary v.mem (vocabulary defs ds)
  mode : mode v = Label.interpret_one_word.offset.setWidth 32
  base : (load32 v.mem Label.base.storage).toNat = b
  io : v.io = u.io
  standing : Standing defs v.mem
  plain : ∀ x ∈ defs, x.1.token = x.1.xta.setWidth 32
  /-- The code is below the compile pointer. -/
  below : ∀ x ∈ defs, (start + x.1.token).toNat +
    2 * (definition_code (start + x.1.token) x.2).length ≤ (cp v.mem).toNat
  room : (cp u.mem).toNat ≤ (cp v.mem).toNat ∧ (cp v.mem).toNat ≤ (cp u.mem).toNat + program_size defs
  keeps : Keeps (behind (cp u.mem)) u.mem v.mem
  reading : Reading (defining (cp v.mem) (e - (cp v.mem).toNat)) ts v

omit [Board] [Sram] in
/-- A token without the immediate flag, and where it leads. -/
theorem entry_token {m : Memory 32} {w : List Byte} {body : Body} (h : Room m (definition_size w body)) :
    (entry m w).token = (entry m w).xta.setWidth 32 ∧ start + (entry m w).token = code_at m w.length := by
  have hbounds := code_at_bounds h
  have hlow := h.low
  have hhigh := h.high
  rw [bss_end_toNat] at hlow
  unfold sram_hi at hhigh
  have hxta : start + (entry m w).xta.setWidth 32 = code_at m w.length :=
    start_add_xta (by rw [show start.toNat = 65536 by decide]; omega) (by omega)
  have htoken := start_add_entry_token h
  exact ⟨BitVec.add_right_inj start |>.mp (htoken.trans hxta.symm), htoken⟩

omit [Sram] in
theorem Loadable.definable {w : List Byte} {src : Source} {body : Body}
    (h : Loadable ds b ((w, src) :: prog) ((entry u.mem w, body) :: defs) ts e u)
    (hbody : src.traverse (resolve b ds) = some body) :
    Definable ds b w src body (Program.tokens prog ++ ts) e u := by
  have hfits : (cp u.mem).toNat + (definition_size w body + program_size defs) ≤ e := h.fits
  have hreading := h.reading
  simp only [Program.tokens, List.flatMap_cons, List.cons_append, List.append_assoc] at hreading
  exact ⟨h.vocabulary, h.controls, h.mode, h.base, hbody, by omega, h.high, hreading⟩

omit [Sram] in
/-- Behind a definition the rest of the program is to be read. -/
theorem Loadable.tail {w : List Byte} {src : Source} {body : Body}
    (h : Loadable ds b ((w, src) :: prog) ((entry u.mem w, body) :: defs) ts e u)
    (hbody : src.traverse (resolve b ds) = some body)
    (hrest : elaborate b (code_end (cp u.mem) w body) (entry u.mem w :: ds) prog = some defs)
    (hv : Extends ds b w body (Program.tokens prog ++ ts) e u v) :
    Loadable (entry u.mem w :: ds) b prog defs ts e v := by
  have hbounds := code_at_bounds (h.definable hbody).room
  have hcp : (cp v.mem).toNat = (code_at u.mem w.length).toNat + 2 * (body.size sizes + 2) := by
    rw [hv.cp, hv.code.pos_toNat (Nat.le_of_eq (length_definition_code ..).symm)]
  have hfits : (cp u.mem).toNat + (definition_size w body + program_size defs) ≤ e := h.fits
  have heven := h.even
  obtain ⟨hspares, hothers⟩ := List.forall_mem_cons.mp h.spares
  refine ⟨hv.vocabulary, h.controls.cons hspares, hv.mode, hv.base, ?_, hothers, by omega, heven, h.high,
    hv.reading.mono (defining_subset (by omega) (by omega))⟩
  rw [hv.cp]
  exact hrest

/-- A program is read, definition by definition. -/
theorem Loadable.passes (h : Loadable ds b prog defs ts e u) (st : List Cell) :
    ∃ k v, Passes u st k v st ∧ Loads ds b defs ts e u v := by
  induction prog generalizing ds defs u with
  | nil =>
    obtain rfl := Option.some.inj h.elaborated
    exact ⟨0, u, .start, h.vocabulary, h.mode, h.base, rfl, List.forall_mem_nil _, List.forall_mem_nil _,
      List.forall_mem_nil _, ⟨Nat.le_refl _, Nat.le_refl _⟩, .refl, h.reading⟩
  | cons p prog ih =>
    obtain ⟨w, src⟩ := p
    obtain ⟨body, rest, hbody, hrest, rfl⟩ := elaborate_cons.mp h.elaborated
    have hdefinable := h.definable hbody
    obtain ⟨k₁, v₁, hpasses₁, hv₁⟩ := hdefinable.passes st
    obtain ⟨k₂, v₂, hpasses₂, hv₂⟩ := ih (h.tail hbody hrest hv₁)
    have hbounds := code_at_bounds hdefinable.room
    have hcp : (cp v₁.mem).toNat = (code_at u.mem w.length).toNat + 2 * (body.size sizes + 2) := by
      rw [hv₁.cp, hv₁.code.pos_toNat (Nat.le_of_eq (length_definition_code ..).symm)]
    obtain ⟨hplain, htoken⟩ := entry_token hdefinable.room
    have hstands : Code v₂.mem (code_at u.mem w.length) (definition_code (code_at u.mem w.length) body) := by
      refine hv₁.code.kept hv₂.keeps ?_
      rintro k (hk | hk) ⟨hlo, hhi⟩
      · have := hv₁.code.low
        rw [bss_end_toNat] at this
        omega
      · rw [length_definition_code] at hhi
        omega
    have hbelow : (code_at u.mem w.length).toNat +
        2 * (definition_code (code_at u.mem w.length) body).length ≤ (cp v₂.mem).toNat := by
      rw [length_definition_code]
      exact hcp ▸ hv₂.room.1
    rw [← htoken] at hstands hbelow
    refine ⟨k₁ + k₂, v₂, hpasses₁.trans hpasses₂, ?_, hv₂.mode, hv₂.base, hv₂.io.trans hv₁.io,
      List.forall_mem_cons.mpr ⟨hstands, hv₂.standing⟩, List.forall_mem_cons.mpr ⟨hplain, hv₂.plain⟩,
      List.forall_mem_cons.mpr ⟨hbelow, hv₂.below⟩, ?_, ?_, hv₂.reading⟩
    · rw [vocabulary_cons]
      exact hv₂.vocabulary
    · have := hv₂.room
      show _ ≤ _ ∧ _ ≤ _ + (definition_size w body + program_size rest)
      omega
    · exact hv₁.keeps.trans (hv₂.keeps.mono fun k hk => hk.imp_right fun hk =>
        (show (cp u.mem).toNat ≤ _ by omega).trans hk)

-- ---------------------------------------------------------------------------
-- Interpreting words
-- ---------------------------------------------------------------------------

omit [Sram] in
theorem Computes.executes {x : Cell} {st st' : List Cell}
    (h : Computes (start + x) ⟨st, [], u.mem, u.io⟩ ⟨st', [], v.mem, v.io⟩) : Executes x u st v st' := by
  intro ip rs
  obtain ⟨t, ht, hleads⟩ := h ip rs
  exact .head ht hleads

omit [Sram] in
/-- A word that may talk to the devices, called from compiled code. -/
theorem Acts.computes {l : Label} {pre post : List Cell} (h : Acts l u pre post v) (hl : l ∈ Label.all.drop 8)
    (st : List Cell) (rs : List Ip) : Computes (start + l.offset.setWidth 32)
      ⟨pre ++ st, rs, u.mem, u.io⟩ ⟨post ++ st, rs, v.mem, v.io⟩ := by
  intro ip R
  obtain ⟨t, ht, hleads⟩ := h ip st (rs ++ R)
  refine ⟨t, ?_, hleads⟩
  show enter false l.addr _ = _
  simpa only [enter, Label.ofAddr?_addr hl] using ht

omit [Sram] in
theorem Idle.scanned {t : List Byte} (h : Idle ds b (t :: ts) u) :
    ¬ AtEnd u.mem ∧ Scp.word u.mem = t ∧ Idle ds b ts u.scanned := by
  obtain ⟨hend, hword, hreading⟩ := h.reading.scanned h.vocabulary
  exact ⟨hend, hword, h.vocabulary.scanned, (mode_kept scanned_keeps).trans h.mode,
    (congrArg _ (base_parsed scanned_keeps)).trans h.base, hreading⟩

theorem Idle.number {st : List Cell} {x : Nat} (h : Idle ds b (t :: ts) u) (hv : recognised b t = some x) :
    Returns .evaluate_one_word u st u.scanned (-1 :: BitVec.ofNat 32 x :: st) := by
  obtain ⟨hend, hword, hscanned⟩ := h.scanned
  have hnumber := interpret_number (h.reading.parsable h.vocabulary) hend
    (by rw [hscanned.base, hword]; exact hv)
  exact one_word_returns (.inl rfl) h.mode (hnumber.returns rfl st)

theorem Idle.word {st st' : List Cell} {d : Dentry} (h : Idle ds b (t :: ts) u) (hnone : recognised b t = none)
    (hd : lookup ds t = some d)
    (hcomputes : Computes (start + d.token) ⟨st, [], u.scanned.mem, u.io⟩ ⟨st', [], v.mem, v.io⟩) :
    Returns .evaluate_one_word u st v (-1 :: st') := by
  obtain ⟨hend, hword, hscanned⟩ := h.scanned
  exact one_word_returns (.inl rfl) h.mode (interpret_executes (h.reading.parsable h.vocabulary) hend
    (by rw [hscanned.base, hword]; exact hnone) (by rw [hword]; exact hd) hcomputes.executes)

/-- Behind the last word evaluation is over. -/
theorem Idle.ended (h : Idle ds b [] u) (st : List Cell) : Returns .evaluate_one_word u st u (0 :: st) :=
  have hend := one_word_end (.inl rfl) (h.reading.parsable h.vocabulary) h.reading.atEnd
  one_word_returns (.inl rfl) h.mode (hend.returns rfl st)

theorem Interprets.passes {st st' : List Cell} (h : Interprets ds b ts u st v st') (hu : Idle ds b ts u) :
    ∃ k, Passes u st k v st' ∧ Idle ds b [] v := by
  induction h with
  | done => exact ⟨0, .start, hu⟩
  | number hv _ ih =>
    obtain ⟨k, hpasses, hend⟩ := ih hu.scanned.2.2
    exact ⟨1 + k, (Passes.word .start (hu.number hv)).trans hpasses, hend⟩
  | word hnone hd hcomputes hidle _ ih =>
    obtain ⟨k, hpasses, hend⟩ := ih hidle
    exact ⟨1 + k, (Passes.word .start (hu.word hnone hd hcomputes)).trans hpasses, hend⟩

/-- A text of definitions, with words to interpret behind them: the definitions are compiled behind
each other, a call of one of them does what its body means in the program, and evaluating the text
does what the words behind them do. On the stacks of the firmware this is so as long as they have room. -/
theorem program_implements {c n : Cell} (h : Loadable ds b prog defs ts e (u.parsing c n)) (st : List Cell) :
    ∃ v, Loads ds b defs ts e (u.parsing c n) v ∧
      (∀ x ∈ defs, ∀ s t, called defs (ProgramMeans defs x.2) s t →
        Computes (start + x.1.token) s t ∧ Finishes (start + x.1.token) s t) ∧
      ∀ w st', Interprets (vocabulary defs ds) b ts v st w st' →
        Returns .evaluate u (n :: c :: st) w st' ∧ ReturnsBounded .evaluate u (n :: c :: st) w st' := by
  obtain ⟨k, v, hpasses, hv⟩ := h.passes st
  refine ⟨v, hv, fun x hx s t hcalled => ?_, fun w st' hw => ?_⟩
  · have hcomputes := called_computes hv.plain hx hcalled
    exact ⟨hcomputes, hcomputes.finishes⟩
  obtain ⟨k', hpasses', hidle⟩ := hw.passes ⟨hv.vocabulary, hv.mode, hv.base, hv.reading.mono (Set.empty_subset _)⟩
  have hreturns := (hpasses.trans hpasses').returns (hidle.ended st')
  exact ⟨hreturns, hreturns.bounded⟩

end Words

-- ---------------------------------------------------------------------------
-- A program in a request
-- ---------------------------------------------------------------------------

namespace Programs

theorem mib_text_toNat : mib_text.toNat = 80900 := by decide

theorem mib_length {n : Nat} (hn : n ≤ 1020) : (BitVec.ofNat 32 n).toNat = n := by
  rw [BitVec.toNat_ofNat]
  omega

/-- Definitions below the buffer leave the text alone. -/
theorem mib_defining {c : Cell} {n : Nat} (hc : c.toNat ≤ 80800) (hn : n ≤ 1020) :
    Apart (parse_cells ∪ defining c (80800 - c.toNat)) mib_text n := by
  have hstart := mib_text_toNat
  intro i hi hmem
  rw [toNat_add_ofNat (by omega)] at hmem
  obtain hmem | hmem := hmem
  · have := parse_cells_bounds hmem
    omega
  · have := defining_bounds hmem
    omega

section Mailbox

variable [Board] [Sram]

theorem mib_readable {n : Nat} (hn : n ≤ 1020) : Readable mib_text n :=
  (Span.behind (by rw [mib_text_toNat]; decide) (by rw [mib_text_toNat]; unfold sram_hi; omega)).readable

/-- A program in the mailbox. -/
theorem mailbox_loadable {text : List Byte} {ds : List Dentry} {b : Nat} {prog : Program} {defs : List Definition}
    {ts : List (List Byte)} {u : Store} (hv : Vocabulary u.mem ds) (hcontrols : Controls ds)
    (hmode : mode u = Label.interpret_one_word.offset.setWidth 32) (hbase : (load32 u.mem Label.base.storage).toNat = b)
    (hs : text.length ≤ 1020) (hbytes : bytes u.mem mib_text text.length = text)
    (helaborated : elaborate b (cp u.mem) ds prog = some defs) (hspares : ∀ x ∈ defs, x.1.Spares)
    (hfits : (cp u.mem).toNat + program_size defs ≤ 80800) (htext : pieces isSpace text = prog.tokens ++ ts) :
    Loadable ds b prog defs ts 80800 (u.parsing mib_text (BitVec.ofNat 32 text.length)) := by
  have hkeeps := parsing_keeps u mib_text (BitVec.ofNat 32 text.length)
  have hcp := cp_parsed hkeeps
  refine ⟨hv.parsed hkeeps, hcontrols, (mode_parsing ..).trans hmode, ?_, by rw [hcp]; exact helaborated, hspares,
    by rw [hcp]; exact hfits, by decide, by decide, ?_⟩
  · rw [base_parsed hkeeps]
    exact hbase
  · rw [hcp]
    refine reading_parsing ?_ ?_ ?_
    all_goals rw [mib_length hs]
    · exact mib_readable hs
    · exact mib_defining (by omega) hs
    · rw [hbytes]
      exact htext

/-- A program that a client sends first. -/
theorem request_loadable {text : List Byte} {prog : Program} {defs : List Definition} {ts : List (List Byte)}
    (hs : text.length ≤ 1020) (helaborated : elaborate 10 bss_end static_dictionary prog = some defs)
    (hspares : ∀ x ∈ defs, x.1.Spares) (hfits : program_size defs ≤ 6692)
    (htext : pieces isSpace text = prog.tokens ++ ts) : Loadable static_dictionary 10 prog defs ts 80800
      ((request text).parsing mib_text (BitVec.ofNat 32 text.length)) := by
  have hcp : cp (request text).mem = bss_end := variable_request hs (by decide)
  have hbase : load32 (request text).mem Label.base.storage = 10 := variable_request hs (by decide)
  refine mailbox_loadable (Defined.start (interpretable_request hs).entries hcp).vocabulary.1 static_controls
    (mode_request hs) (by rw [hbase]; rfl) hs (consumed_request hs).chars (by rw [hcp]; exact helaborated) hspares ?_
    htext
  rw [hcp, bss_end_toNat]
  omega

end Mailbox

local instance : Board := .flat
local instance : Sram := .flat

def power : Program :=
  [(ascii "sq", .word (ascii "dup") (.word (ascii "*") .done)),
    (ascii "quad", .word (ascii "sq") (.word (ascii "sq") .done))]

def power_text : List Byte := ascii ": sq dup * ; : quad sq sq ; 3 quad"

def sq : Definition := (entry_from bss_end (ascii "sq"),
  .word (.xt Label.dup.offset) (.word (.xt Label.mul.offset) .done))

def quad : Definition := (entry_from (code_end bss_end (ascii "sq") sq.2) (ascii "quad"),
  .word (.xt sq.1.xta) (.word (.xt sq.1.xta) .done))

theorem power_loadable : Loadable static_dictionary 10 power [sq, quad] [ascii "3", ascii "quad"] 80800
    ((request power_text).parsing mib_text (BitVec.ofNat 32 power_text.length)) :=
  request_loadable (by decide) (by decide +kernel) (by decide) (by decide) (by decide +kernel)

theorem dup_does {m : Memory 32} {x : Cell} : Does .dup m [x] [x, x] m := fun _ _ _ _ => ⟨_, rfl, .refl⟩

/-- The meaning of `sq` within a program that has it first. -/
theorem sq_called {m : Memory 32} {defs : List Definition} (h : Standing defs m) (x : Cell) (io : Io) :
    called defs (Calls (counts (Standing defs)) (called defs) [] sq.2) ⟨[x], [], m, io⟩ ⟨[x * x], [], m, io⟩ := by
  refine ⟨h, .word ⟨dup_does.computes (by decide), h⟩ (.word ⟨?_, h⟩ .done), rfl, h⟩
  exact (mul_does x x).computes (by decide)

/-- The fourth power of three. -/
theorem power_evaluates : ∃ w, Returns .evaluate (request power_text)
    [BitVec.ofNat 32 power_text.length, mib_text] w [81] := by
  obtain ⟨v, hv, hcalls, hinterprets⟩ := program_implements power_loadable []
  have hidle : Idle (vocabulary [sq, quad] static_dictionary) 10 [ascii "3", ascii "quad"] v :=
    ⟨hv.vocabulary, hv.mode, hv.base, hv.reading.mono (Set.empty_subset _)⟩
  obtain ⟨-, -, hidle₁⟩ := hidle.scanned
  obtain ⟨-, -, hidle₂⟩ := hidle₁.scanned
  have hstanding : Standing [sq, quad] v.scanned.scanned.mem := fun x hx =>
    (hv.standing x hx).kept (scanned_keeps.trans scanned_keeps) fun k hk hmem => by
      have := parse_cells_bounds hk
      have := (hv.standing x hx).low
      rw [bss_end_toNat] at this
      omega
  have hsq (x : Cell) : runs (counts (Standing [sq, quad])) (called [sq, quad]) (procedures [sq, quad])
      (.xt sq.1.xta) ⟨[x], [], v.scanned.scanned.mem, v.io⟩ ⟨[x * x], [], v.scanned.scanned.mem, v.io⟩ := by
    have hprocedures : procedures [sq, quad] = [(.xt quad.1.xta, quad.2)] ++ [(.xt sq.1.xta, sq.2)] := rfl
    rw [hprocedures]
    exact Structured.runs_call (sq_called hstanding x v.io)
  have hquad := hcalls quad (by decide) ⟨[3], [], v.scanned.scanned.mem, v.io⟩
    ⟨[81], [], v.scanned.scanned.mem, v.io⟩ ⟨hstanding, .word (hsq 3) (.word (hsq 9) .done), rfl, hstanding⟩
  have hlookup : lookup (vocabulary [sq, quad] static_dictionary) (ascii "quad") = some quad.1 := by
    decide +kernel
  have hnumber : recognised 10 (ascii "3") = some 3 := by decide +kernel
  have hword : recognised 10 (ascii "quad") = none := by decide +kernel
  exact ⟨v.scanned.scanned, (hinterprets _ _ (.number hnumber (.word hword hlookup hquad.1 hidle₂ .done))).1⟩

end Programs

end Allwinner.Scp
