import Allwinner.Scp.Image

/-!
# Evaluating a text

`evaluate` calls the word in `eval_xt` until that reports the end of the buffer or an error.
A word of the dictionary may do anything. What is said here is for those that come back to
the interpreter, and for texts none of whose words touches the parse variables.
-/

namespace Allwinner.Scp

open Library Memory
open Forth hiding ip ds rs mem io jump one two

/-- The execution token `evaluate_one_word` calls. -/
def mode (u : Store) : Cell := load32 u.mem Label.eval_xt.storage

def IsMode (l : Label) : Prop := l = .interpret_one_word ∨ l = .compile_one_word

theorem mode_kept (h : Keeps parse_cells m m') : mode ⟨m', io⟩ = mode ⟨m, io'⟩ := by
  refine Label.kept h (by decide) fun n hn hmem => ?_
  have hlo := (parse_cells_bounds hn).1
  have hhi := hmem.2
  rw [show Label.eval_xt.storage.toNat = 68116 by decide] at hhi
  omega

theorem eval_xt_room_bounds (h : n ∈ Label.eval_xt.room) : 68116 ≤ n ∧ n < 68120 := by
  obtain ⟨hlo, hhi⟩ := h
  rw [show Label.eval_xt.storage.toNat = 68116 by decide] at hlo hhi
  exact ⟨hlo, hhi⟩

theorem mode_parsing (u : Store) (a n : Cell) : mode (u.parsing a n) = mode u :=
  mode_kept (parsing_keeps u a n)

theorem mode_request {s : List Byte} (hs : s.length ≤ 1020) :
    mode (request s) = Label.interpret_one_word.offset.setWidth 32 := variable_request hs (by decide)

section Words

variable [Board]

theorem Parsable.text_scanned (h : Parsable ds u) : text u.scanned.mem =
    (text u.mem).drop (gap isSpace (text u.mem) + segment isSpace (text u.mem)) := by
  have hstart : Consumed (ptr u.mem) (text u.mem) 0 u.mem :=
    ⟨(BitVec.add_zero _).symm, length_text.symm, by rw [length_text]; rfl⟩
  have hapart : Apart parse_cells (ptr u.mem) (text u.mem).length := by
    rw [length_text]
    exact h.buffer
  have htext := (hstart.scanned hapart).text
  rwa [List.drop_zero, Nat.zero_add] at htext

-- ---------------------------------------------------------------------------
-- One round after the other
-- ---------------------------------------------------------------------------

/-- A list word, called on a stack, comes back. -/
def Returns (l : Label) (u : Store) (st : List Cell) (u' : Store) (st' : List Cell) : Prop :=
  ∀ ip rs, Leads ⟨.rom l 0, st, ip :: rs, u.mem, u.io, none⟩ ⟨ip, st', rs, u'.mem, u'.io, none⟩

/-- On stacks of the size the firmware has, the word comes back the same way or one of them overflows. -/
def ReturnsBounded (l : Label) (u : Store) (st : List Cell) (u' : Store) (st' : List Cell) : Prop :=
  ∀ ip rs, Ends ⟨.rom l 0, st, ip :: rs, u.mem, u.io, none⟩ ⟨ip, st', rs, u'.mem, u'.io, none⟩

theorem Returns.bounded (h : Returns l u st u' st') : ReturnsBounded l u st u' st' :=
  fun ip rs => (h ip rs).ends

theorem Acts.returns (h : Acts l u pre post u') (hl : l.prim? = none) (st : List Cell) :
    Returns l u (pre ++ st) u' (post ++ st) := by
  intro ip rs
  obtain ⟨t, ht, hleads⟩ := h ip st rs
  simp only [call, hl, dolist, Bool.false_and, Bool.false_eq_true, if_false, Turn.on.injEq] at ht
  exact ht ▸ hleads

theorem Returns.unique (h : Returns l u st v st₁) (h' : Returns l u st w st₂) : v = w ∧ st₁ = st₂ := by
  have hend := Leads.unique (h (.rom .main 1000) []) (h' (.rom .main 1000) [])
    (fun t hstep => by cases hstep) fun t hstep => by cases hstep
  simp only [Forth.mk.injEq] at hend
  exact ⟨Store.ext hend.2.2.2.1 hend.2.2.2.2.1, hend.2.1⟩

/-- The word as a token of a list. -/
theorem Returns.at (h : Returns l u st v st₁) (hl : l.prim? = none) {w : Label} {k : Nat}
    (hk : w.list[k]? = some (.xt l)) :
    Leads ⟨.rom w k, st, rs, u.mem, u.io, none⟩ ⟨.rom w (k + 1), st₁, rs, v.mem, v.io, none⟩ := by
  refine .head (b := ⟨.rom l 0, st, .rom w (k + 1) :: rs, u.mem, u.io, none⟩) ?_ (h _ _)
  simp [Steps, act, hk, token, call, hl, dolist]

/-- `evaluate` has done `k` words and goes on. -/
inductive Passes (u : Store) (st : List Cell) : Nat → Store → List Cell → Prop
  | start : Passes u st 0 u st
  | word : Passes u st k v st₁ → Returns .evaluate_one_word v st₁ w (-1 :: st₂) →
      Passes u st (k + 1) w st₂

variable {u v w : Store} {st st₁ st₂ : List Cell}

theorem Passes.trans (h : Passes u st k v st₁) (h' : Passes v st₁ k' w st₂) :
    Passes u st (k + k') w st₂ := by
  induction h' with
  | start => exact h
  | word _ hreturns ih => exact ih.word hreturns

theorem evaluate_round (h : Returns .evaluate_one_word u st w (f :: st₁)) :
    Leads ⟨.rom .evaluate 4, st, rs, u.mem, u.io, none⟩
      ⟨.rom .evaluate 7, ~~~f :: st₁, rs, w.mem, w.io, none⟩ :=
  calc
    Leads _ ⟨.rom .evaluate 5, st, rs, u.mem, u.io, none⟩ := run_leads (n := 1) rfl
    Leads _ ⟨.rom .evaluate 6, f :: st₁, rs, w.mem, w.io, none⟩ := h.at rfl rfl
    Leads _ _ := not_does.at rfl

theorem Passes.leads (h : Passes u st k v st₁) :
    Leads ⟨.rom .evaluate 4, st, rs, u.mem, u.io, none⟩
      ⟨.rom .evaluate 4, st₁, rs, v.mem, v.io, none⟩ := by
  induction h with
  | start => exact .refl
  | word _ hreturns ih => exact (ih.trans (evaluate_round hreturns)).trans (qbranch_taken rfl rfl rfl)

/-- `evaluate` comes back after the word that reports failure. -/
theorem Passes.returns (h : Passes (u.parsing a n) st k v st₁)
    (hlast : Returns .evaluate_one_word v st₁ w (0 :: st₂)) [Sram] :
    Returns .evaluate u (n :: a :: st) w st₂ := by
  intro ip rs
  calc
    Leads ⟨.rom .evaluate 0, n :: a :: st, ip :: rs, u.mem, u.io, none⟩
      ⟨.rom .evaluate 2, a :: st, ip :: rs, store32 u.mem Label.parse_len.storage n, u.io, none⟩ :=
        (Label.Var.of_isVar rfl).set rfl rfl
    Leads _ ⟨.rom .evaluate 4, st, ip :: rs, (u.parsing a n).mem, u.io, none⟩ :=
      (Label.Var.of_isVar rfl).set rfl rfl
    Leads _ ⟨.rom .evaluate 4, st₁, ip :: rs, v.mem, v.io, none⟩ := h.leads
    Leads _ ⟨.rom .evaluate 8, st₂, ip :: rs, w.mem, w.io, none⟩ :=
      (evaluate_round hlast).trans (qbranch_passed rfl (by decide))
    Leads _ _ := run_leads (n := 1) rfl

-- ---------------------------------------------------------------------------
-- One word
-- ---------------------------------------------------------------------------

theorem one_word_enters [Sram] {l : Label} (hl : IsMode l) (hmode : mode u = l.offset.setWidth 32) :
    Leads ⟨.rom .evaluate_one_word 0, st, rs, u.mem, u.io, none⟩
      ⟨.rom l 0, st, .rom .evaluate_one_word 3 :: rs, u.mem, u.io, none⟩ := by
  have hmem : l ∈ Label.all.drop 8 := by obtain rfl | rfl := hl <;> decide
  have hprim : l.prim? = none := by obtain rfl | rfl := hl <;> rfl
  have hexecute : Leads
      ⟨.rom .evaluate_one_word 2, l.offset.setWidth 32 :: st, rs, u.mem, u.io, none⟩
      ⟨.rom l 0, st, .rom .evaluate_one_word 3 :: rs, u.mem, u.io, none⟩ := by
    refine .head (b := ⟨.rom .evaluate_one_word 3, st, rs, u.mem, u.io, some l.addr⟩) ?_ (.single ?_)
    · have hk : Label.evaluate_one_word.list[2]? = some (.xt .execute) := rfl
      simp [Steps, act, hk, token, call, Label.prim?, Prim.turn, Forth.one, Label.addr]
    · simp [Steps, act, enter, Label.ofAddr?_addr hmem, call, hprim, dolist]
  have hfetch : Leads ⟨.rom .evaluate_one_word 0, st, rs, u.mem, u.io, none⟩
      ⟨.rom .evaluate_one_word 2, mode u :: st, rs, u.mem, u.io, none⟩ :=
    (Label.Var.of_isVar rfl).fetch rfl rfl
  exact hfetch.trans (hmode ▸ hexecute)

theorem one_word_returns [Sram] {l : Label} (hl : IsMode l)
    (hmode : mode u = l.offset.setWidth 32) (h : Returns l u st w st₁) :
    Returns .evaluate_one_word u st w st₁ := by
  intro ip rs
  calc
    Leads _ ⟨.rom l 0, st, .rom .evaluate_one_word 3 :: ip :: rs, u.mem, u.io, none⟩ := one_word_enters hl hmode
    Leads _ ⟨.rom .evaluate_one_word 3, st₁, ip :: rs, w.mem, w.io, none⟩ := h _ _
    Leads _ _ := run_leads (n := 1) rfl

/-- What holds at each word of a text. -/
structure Ready (E : Emitter) (u : Store) : Prop where
  session : ∃ ds, Interpretable E ds u
  mode : ∃ l, IsMode l ∧ mode u = l.offset.setWidth 32

/-- From `v` to `w` neither the parse variables nor what is left of the text changes. -/
structure Leaves (E : Emitter) (v w : Store) : Prop where
  ready : Ready E w
  ptr : ptr w.mem = ptr v.mem
  len : len w.mem = len v.mem
  text : text w.mem = text v.mem

/-- The entry is executed and not compiled. -/
def Executed (u : Store) (d : Dentry) : Prop :=
  mode u = Label.interpret_one_word.offset.setWidth 32 ∨ d.xta.setWidth 32 &&& (1 : Cell) ≠ 0

/-- The next word leaves the parse variables alone if it comes back. Neither does what it
appends to a definition touch them. -/
structure Tame (E : Emitter) (v : Store) (st : List Cell) : Prop where
  executed : ∀ ds d, Interpretable E ds v → lookup ds (word v.mem) = some d → Executed v d →
    ∀ w st', Executes d.token v.scanned st w st' → Leaves E v.scanned w
  compiled : mode v = Label.compile_one_word.offset.setWidth 32 →
    ∀ x w, Acts .compile_xta v.scanned [x] [] w → Leaves E v.scanned w ∧
      ∀ n w', Acts .compile_cell w [n] [] w' → Leaves E v.scanned w'

/-- The next word does not come back. -/
inductive Hangs (E : Emitter) (v : Store) (st : List Cell) : Prop
  | executed (ds : List Dentry) (d : Dentry) : Interpretable E ds v → lookup ds (word v.mem) = some d →
      Executed v d → (∀ w st', ¬ Executes d.token v.scanned st w st') → Hangs E v st
  | compiled (x : Cell) : (∀ w, ¬ Acts .compile_xta v.scanned [x] [] w) → Hangs E v st
  | literal (x n : Cell) (w : Store) : Acts .compile_xta v.scanned [x] [] w →
      (∀ w', ¬ Acts .compile_cell w [n] [] w') → Hangs E v st

variable {E : Emitter} {ds : List Dentry}

theorem Ready.scanned (h : Ready E v) : Ready E v.scanned := by
  obtain ⟨⟨ds, hs⟩, l, hl, hmode⟩ := h
  exact ⟨⟨ds, hs.scanned⟩, l, hl, (mode_kept scanned_keeps).trans hmode⟩

/-- A word less is left of the text. -/
theorem runs_scanned (hs : Interpretable E ds v) (hend : ¬ AtEnd v.mem) (i : Nat) :
    ∃ j, (runsFrom isSpace i (text v.mem)).length =
      (runsFrom isSpace j (text v.scanned.mem)).length + 1 := by
  have hword : segment isSpace (text v.mem) ≠ 0 := hend
  rw [runsFrom, if_neg hword, List.length_cons, hs.parsable.text_scanned]
  exact ⟨_, rfl⟩

variable [Sram]

/-- A word that comes back does so to the round that executes it. -/
theorem interpret_executes {d : Dentry} (h : Parsable ds u) (hend : ¬ AtEnd u.mem)
    (hnone : recognised (load32 u.scanned.mem Label.base.storage).toNat (word u.mem) = none)
    (hd : lookup ds (word u.mem) = some d) (hexec : Executes d.token u.scanned st w st₁) :
    Returns .interpret_one_word u st w (-1 :: st₁) := fun _ _ =>
  ((interpret_found h hend hnone hd).trans (hexec _ _)).trans (run_leads (n := 6) rfl)

theorem compile_executes {d : Dentry} (h : Parsable ds u) (hend : ¬ AtEnd u.mem)
    (hnone : recognised (load32 u.scanned.mem Label.base.storage).toNat (word u.mem) = none)
    (hd : lookup ds (word u.mem) = some d) (hflag : d.xta.setWidth 32 &&& (1 : Cell) ≠ 0)
    (hexec : Executes d.token u.scanned st w st₁) :
    Returns .compile_one_word u st w (-1 :: st₁) := fun _ _ =>
  ((compile_immediate h hend hnone hd hflag).trans (hexec _ _)).trans (run_leads (n := 6) rfl)

/-- One call of `evaluate_one_word`: it reports failure, it does not come back, or it has
consumed the next word of the text. -/
theorem evaluate_one_word_cases (hr : Ready E v) (ht : Tame E v st) :
    (∃ w, Returns .evaluate_one_word v st w (0 :: st)) ∨ Hangs E v st ∨
      (¬ AtEnd v.mem ∧ ∃ w st', Returns .evaluate_one_word v st w (-1 :: st') ∧
        Leaves E v.scanned w) := by
  obtain ⟨⟨ds, hs⟩, l, hl, hmode⟩ := id hr
  have hprim : l.prim? = none := by obtain rfl | rfl := hl <;> rfl
  by_cases hend : AtEnd v.mem
  · exact .inl ⟨v, one_word_returns hl hmode ((one_word_end hl hs.parsable hend).returns hprim st)⟩
  have hsame : Leaves E v.scanned v.scanned := ⟨hr.scanned, rfl, rfl, rfl⟩
  cases hv : recognised (load32 v.scanned.mem Label.base.storage).toNat (word v.mem) with
  | some x =>
    obtain rfl | rfl := id hl
    · exact .inr (.inr ⟨hend, _, _, one_word_returns hl hmode
        ((interpret_number hs.parsable hend hv).returns rfl st), hsame⟩)
    by_cases hxta : ∃ w, Acts .compile_xta v.scanned [Label.dolit.offset.setWidth 32] [] w
    · obtain ⟨w, hxta⟩ := hxta
      by_cases hcell : ∃ w', Acts .compile_cell w [BitVec.ofNat 32 x] [] w'
      · obtain ⟨w', hcell⟩ := hcell
        exact .inr (.inr ⟨hend, _, _, one_word_returns hl hmode
          ((compile_number hs.parsable hend hv hxta hcell).returns rfl st),
          (ht.compiled hmode _ _ hxta).2 _ _ hcell⟩)
      · exact .inr (.inl (.literal _ _ w hxta fun w' h => hcell ⟨w', h⟩))
    · exact .inr (.inl (.compiled _ fun w h => hxta ⟨w, h⟩))
  | none =>
    cases hd : lookup ds (word v.mem) with
    | none =>
      exact .inl ⟨_, one_word_returns hl hmode ((one_word_unknown hl hs hend hv hd).returns hprim st)⟩
    | some d =>
      by_cases hexecuted : Executed v d
      · by_cases hexec : ∃ w st', Executes d.token v.scanned st w st'
        · obtain ⟨w, st', hexec⟩ := hexec
          refine .inr (.inr ⟨hend, w, st', one_word_returns hl hmode ?_,
            ht.executed ds d hs hd hexecuted w st' hexec⟩)
          obtain rfl | rfl := hl
          · exact interpret_executes hs.parsable hend hv hd hexec
          · refine compile_executes hs.parsable hend hv hd (hexecuted.resolve_left fun h => ?_) hexec
            rw [hmode] at h
            exact absurd h (by decide)
        · exact .inr (.inl (.executed ds d hs hd hexecuted fun w st' h => hexec ⟨w, st', h⟩))
      · obtain rfl | rfl := id hl
        · exact absurd (.inl hmode) hexecuted
        have hflag : d.xta.setWidth 32 &&& (1 : Cell) = 0 := by
          by_contra hne
          exact hexecuted (.inr hne)
        by_cases hxta : ∃ w, Acts .compile_xta v.scanned [d.token] [] w
        · obtain ⟨w, hxta⟩ := hxta
          exact .inr (.inr ⟨hend, _, _, one_word_returns hl hmode
            ((compile_word hs.parsable hend hv hd hflag hxta).returns rfl st), (ht.compiled hmode _ _ hxta).1⟩)
        · exact .inr (.inl (.compiled _ fun w h => hxta ⟨w, h⟩))

-- ---------------------------------------------------------------------------
-- Whole texts
-- ---------------------------------------------------------------------------

/-- After `k` words the text has `k` words less, or the evaluation came to its end before. -/
theorem passes_or_ends (hr : Ready E u) (ht : ∀ k v st', Passes u st k v st' → Tame E v st')
    (k : Nat) : (∃ j < k, ∃ v st₁, Passes u st j v st₁ ∧
        ((∃ w, Returns .evaluate_one_word v st₁ w (0 :: st₁)) ∨ Hangs E v st₁)) ∨
      ∃ v st₁ i, Passes u st k v st₁ ∧ Ready E v ∧
        (runsFrom isSpace i (text v.mem)).length + k = (runsFrom isSpace 0 (text u.mem)).length := by
  induction k with
  | zero => exact .inr ⟨u, st, 0, .start, hr, rfl⟩
  | succ k ih =>
    obtain ⟨j, hj, hends⟩ | ⟨v, st₁, i, hpasses, hv, hcount⟩ := ih
    · exact .inl ⟨j, hj.trans k.lt_succ_self, hends⟩
    obtain hreturns | hhangs | ⟨hend, w, st₂, hreturns, hleaves⟩ :=
      evaluate_one_word_cases hv (ht k v st₁ hpasses)
    · exact .inl ⟨k, k.lt_succ_self, v, st₁, hpasses, .inl hreturns⟩
    · exact .inl ⟨k, k.lt_succ_self, v, st₁, hpasses, .inr hhangs⟩
    · obtain ⟨ds, hs⟩ := hv.session
      obtain ⟨j, hj⟩ := runs_scanned hs hend i
      refine .inr ⟨w, st₂, j, .word hpasses hreturns, hleaves.ready, ?_⟩
      rw [hleaves.text]
      omega

/-- An evaluation is over, or inside a word that does not come back, after at most as many
words as the text has. -/
theorem evaluate_ends (hr : Ready E u) (ht : ∀ k v st', Passes u st k v st' → Tame E v st') :
    ∃ k ≤ (runsFrom isSpace 0 (text u.mem)).length, ∃ v st₁, Passes u st k v st₁ ∧
      ((∃ w, Returns .evaluate_one_word v st₁ w (0 :: st₁)) ∨ Hangs E v st₁) := by
  obtain ⟨k, hk, hends⟩ | ⟨v, st₁, i, -, -, hcount⟩ :=
    passes_or_ends hr ht ((runsFrom isSpace 0 (text u.mem)).length + 1)
  · exact ⟨k, Nat.lt_succ_iff.mp hk, hends⟩
  · omega

/-- At an unknown word `evaluate` comes back in the mode it met it in, and no definition has become
visible. -/
theorem unknown_word_returns {l : Label} {a n : Cell} (hpasses : Passes (u.parsing a n) st k v st₁)
    (hs : Interpretable E ds v) (hl : IsMode l) (hmode : mode v = l.offset.setWidth 32)
    (hend : ¬ AtEnd v.mem)
    (hnone : recognised (load32 v.scanned.mem Label.base.storage).toNat (word v.mem) = none)
    (hunknown : lookup ds (word v.mem) = none)
    (hapart : ∀ i ∈ E.footprint, i ∉ Label.eval_xt.room ∧ i ∉ Label.current.room ∧
      ∀ d ∈ ds, i ∉ d.cells) :
    ∃ w, Returns .evaluate u (n :: a :: st) w st₁ ∧ mode w = mode v ∧ Entries w.mem ds := by
  have hprim : l.prim? = none := by obtain rfl | rfl := hl <;> rfl
  have hword := (one_word_unknown hl hs hend hnone hunknown).returns hprim st₁
  have hkeeps := E.keeps_say hs.scanned.console.ready (unknown_report (word v.mem))
  refine ⟨_, hpasses.returns (one_word_returns hl hmode hword), ?_, ?_⟩
  · exact (Label.kept hkeeps (by decide) fun i hi => (hapart i hi).1).trans (mode_kept scanned_keeps)
  · exact hs.scanned.entries.kept hkeeps (fun i hi => (hapart i hi).2.1) fun d hd i hi =>
      (hapart i hi).2.2 d hd

end Words

/-- The words of a buffer `s` at `a`. On every board that answers the buffer and the two parse
variables with RAM, whatever it does elsewhere, successive calls of `scan_one_word` return the
maximal runs without white space from left to right and then the end for ever. `evaluate`
stops after at most as many words as there are runs, unless one does not come back. -/
theorem words_of_buffer (a : Cell) (s : List Byte) :
    ∃ runs : List (Nat × Nat), (∀ j n, (j, n) ∈ runs ↔ IsRun isSpace s j n) ∧
      runs.Pairwise (fun r r' => r.1 + r.2 ≤ r'.1) ∧
      (∀ [Board] (m : Memory 32), Label.parse_ptr.Var → Label.parse_len.Var → Readable a s.length →
        Apart parse_cells a s.length → Consumed a s 0 m → ∀ k, ∃ start,
          Delivers .scan_one_word (after_scan^[k] m) [] ((runs[k]?).elim [0, start] fun r =>
            [BitVec.ofNat 32 r.2, a + BitVec.ofNat 32 r.1]) (after_scan^[k + 1] m) ∧
          ptr (after_scan^[k] m) + len (after_scan^[k] m) = a + BitVec.ofNat 32 s.length ∧
          bytes (after_scan^[k] m) a s.length = s) ∧
      ∀ [Board] [Sram] (E : Emitter) (u : Store) (n : Cell) (st : List Cell),
        Ready E (u.parsing a n) → text (u.parsing a n).mem = s →
        (∀ k v st', Passes (u.parsing a n) st k v st' → Tame E v st') →
        ∃ k ≤ runs.length, ∃ v st₁, Passes (u.parsing a n) st k v st₁ ∧
          ((∃ w, Returns .evaluate u (n :: a :: st) w st₁ ∧ ReturnsBounded .evaluate u (n :: a :: st) w st₁) ∨
            Hangs E v st₁) := by
  refine ⟨runsFrom isSpace 0 s, fun j n => mem_runsFrom, runsFrom_pairwise.1, ?_, ?_⟩
  · intro _ m hptr hlen hread hapart hstart k
    obtain ⟨i, hi⟩ := hstart.iterate hapart k
    have hle := hi.len
    refine ⟨word_start (after_scan^[k] m), ?_, ?_, hi.chars⟩
    · have hscan : Scannable (after_scan^[k] m) := by
        refine ⟨hptr, hlen, ?_⟩
        rw [hi.ptr, show (len (after_scan^[k] m)).toNat = s.length - i by omega]
        exact hread.drop i
      have hdoes := scan_one_word_does hscan
      rw [hstart.answer_iterate hapart, List.drop_zero, ← Function.iterate_succ_apply' after_scan] at hdoes
      exact hdoes.delivers (by decide)
    · have hadd : BitVec.ofNat 32 i + len (after_scan^[k] m) = BitVec.ofNat 32 s.length := by
        rw [← hle, Nat.add_comm, BitVec.ofNat_add, BitVec.ofNat_toNat, BitVec.setWidth_eq]
      rw [hi.ptr, BitVec.add_assoc, hadd]
  · intro _ _ E u n st hr htext ht
    obtain ⟨k, hk, v, st₁, hpasses, hends⟩ := evaluate_ends hr ht
    rw [htext] at hk
    refine ⟨k, hk, v, st₁, hpasses, hends.imp_left ?_⟩
    rintro ⟨w, hreturns⟩
    exact ⟨w, hpasses.returns hreturns, (hpasses.returns hreturns).bounded⟩

namespace Evaluation

local instance : Board := .flat
local instance : Sram := .flat

/-- A text without any word of the dictionary. -/
theorem unknown_text_tame : ∀ k v st, Passes (request (ascii "?")) [] k v st → Tame uart v st := by
  have hs : (ascii "?").length ≤ 1020 := by decide
  have hsession := interpretable_request hs
  have hmode := mode_request hs
  have hend : ¬ AtEnd (request (ascii "?")).mem := by
    rw [AtEnd, text_request hs]
    decide
  have hword : word (request (ascii "?")).mem = ascii "?" := by
    rw [word, text_request hs]
    decide
  have hnone : lookup static_dictionary (word (request (ascii "?")).mem) = none := by
    rw [hword]
    decide +kernel
  have hreturns := one_word_returns (.inl rfl) hmode ((one_word_unknown (.inl rfl) hsession hend
    (by rw [hword]; rfl) hnone).returns rfl [])
  intro k v st hpasses
  have hfirst : v = request (ascii "?") ∧ st = [] := by
    induction hpasses with
    | start => exact ⟨rfl, rfl⟩
    | word _ hagain ih =>
      obtain ⟨rfl, rfl⟩ := ih
      cases (List.cons.inj (hreturns.unique hagain).2).1
  obtain ⟨rfl, rfl⟩ := hfirst
  refine ⟨fun ds d hds hd => ?_, fun hcompile => ?_⟩
  · rw [lookup_eq_none, interpretable_request hs |>.entries.known_unique hds.entries, ← lookup_eq_none, hd] at hnone
    cases hnone
  · rw [hmode] at hcompile
    exact absurd hcompile (by decide)

theorem unknown_text_ends : ∃ k v st, Passes (request (ascii "?")) [] k v st ∧
    ((∃ w, Returns .evaluate (with_text (ascii "?")) [1, mib_text] w st ∧
      ReturnsBounded .evaluate (with_text (ascii "?")) [1, mib_text] w st) ∨ Hangs uart v st) := by
  have hs : (ascii "?").length ≤ 1020 := by decide
  obtain ⟨runs, -, -, -, heval⟩ := words_of_buffer mib_text (ascii "?")
  obtain ⟨k, -, v, st, hpasses, hends⟩ := heval uart (with_text (ascii "?")) 1 []
    ⟨⟨_, interpretable_request hs⟩, _, .inl rfl, mode_request hs⟩ (text_request hs) unknown_text_tame
  exact ⟨k, v, st, hpasses, hends⟩

end Evaluation

end Allwinner.Scp
