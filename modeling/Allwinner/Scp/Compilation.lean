import Allwinner.Scp.ControlWords

/-!
# Evaluating a definition

The text of a definition is evaluated word by word. `Compiling` is what holds in between: how
far the code has come and which words are left. Every word of the body appends its half words,
and the control structures fill in the branches to come.
-/

namespace Allwinner.Scp

open Library Memory
open Library.Structured (Prog)
open Forth hiding ip ds rs mem io jump one two

/-- A body as it is written. -/
abbrev Source := Prog (List Byte)

/-- The words of a body. -/
def tokens : Source → List (List Byte)
  | .done => []
  | .word s k => s :: tokens k
  | .ifThen b k => ascii "IF" :: (tokens b ++ ascii "THEN" :: tokens k)
  | .untilLoop b k => ascii "BEGIN" :: (tokens b ++ ascii "UNTIL" :: tokens k)
  | .againLoop b k => ascii "BEGIN" :: (tokens b ++ ascii "AGAIN" :: tokens k)
  | .forNext b k => ascii "FOR" :: (tokens b ++ ascii "NEXT" :: tokens k)
  | .forAft b k => ascii "FOR" :: ascii "AFT" :: (tokens b ++ ascii "THEN" :: ascii "NEXT" :: tokens k)

/-- A number in base `b`, or a word of the dictionary that is not immediate. -/
def resolve (b : Nat) (ds : List Dentry) (s : List Byte) : Option Atom :=
  match recognised b s with
  | some v => some (.lit (BitVec.ofNat 32 v))
  | none =>
    match lookup ds s with
    | some d => if d.xta.setWidth 32 &&& (1 : Cell) = 0 then some (.xt d.xta) else none
    | none => none

/-- The words of the control structures. -/
def control_words : List (List Byte × Label) :=
  [(ascii "IF", .compile_if), (ascii "THEN", .compile_then), (ascii "BEGIN", .compile_begin),
    (ascii "AGAIN", .compile_again), (ascii "UNTIL", .compile_until), (ascii "FOR", .compile_for),
    (ascii "NEXT", .compile_next), (ascii "AFT", .compile_aft), (ascii ";", .semicolon)]

/-- The words of the compiler are those of the firmware. -/
structure Controls (ds : List Dentry) : Prop where
  colon : ∃ d, lookup ds (ascii ":") = some d ∧ d.xta = Label.colon.offset
  immediate : ∀ x ∈ control_words, ∃ d, lookup ds x.1 = some d ∧ d.xta = x.2.offset ||| 1

/-- The character is no digit in any base. -/
def noDigit (c : Byte) : Bool :=
  !(decide (0x30 ≤ c.toNat ∧ c.toNat ≤ 0x39) || decide (0x61 ≤ c.toNat ∧ c.toNat ≤ 0x7a))

theorem digit?_eq_none (h : noDigit c = true) (b : Nat) : digit? b c = none := by
  simp only [noDigit, Bool.not_eq_true', Bool.or_eq_false_iff, decide_eq_false_iff_not] at h
  rw [digit?, if_neg h.1, if_neg h.2]
  rfl

theorem recognised_of_head {s : List Byte} (h : s.head?.all noDigit = true) (b : Nat) :
    recognised b s = none := by
  cases s with
  | nil => rfl
  | cons c s =>
    rw [recognised, if_neg (List.cons_ne_nil _ _), List.foldlM_cons, append_digit,
      digit?_eq_none h]
    rfl

theorem recognised_colon (b : Nat) : recognised b (ascii ":") = none :=
  recognised_of_head (by decide) b

/-- No control structure starts like a number. -/
theorem recognised_control (hx : x ∈ control_words) (b : Nat) : recognised b x.1 = none := by
  have hall : ∀ x ∈ control_words, x.1.head?.all noDigit = true := by decide
  exact recognised_of_head (hall x hx) b

/-- The entry of a control word is executed while compiling. -/
theorem control_entry {d : Dentry} (hx : x ∈ control_words) (hd : d.xta = x.2.offset ||| 1) :
    d.token = x.2.offset.setWidth 32 ∧ d.xta.setWidth 32 &&& (1 : Cell) ≠ 0 ∧ x.2 ∈ Label.all.drop 8 := by
  have hall : ∀ x ∈ control_words, unflagged ((x.2.offset ||| 1).setWidth 32) = x.2.offset.setWidth 32 ∧
      (x.2.offset ||| 1).setWidth 32 &&& (1 : Cell) ≠ 0 ∧ x.2 ∈ Label.all.drop 8 := by decide
  rw [Dentry.token, hd]
  exact hall x hx

-- ---------------------------------------------------------------------------
-- What holds between two words
-- ---------------------------------------------------------------------------

theorem zone_bounds (hk : k ∈ zone a n) :
    (68084 ≤ k ∧ k < 68088) ∨ (a.toNat ≤ k ∧ k < a.toNat + 2 * n) := by
  obtain hk | hk := hk
  · exact .inl (cp_room_bounds hk)
  · exact .inr hk

/-- What a definition writes besides the parse variables: variables of the compiler, and `k` bytes. -/
def defining (c : Cell) (k : Nat) : Set Nat :=
  Label.cp.room ∪ Label.latest_dentry.room ∪ Label.eval_xt.room ∪ Label.current.room ∪
    Set.Ico c.toNat (c.toNat + k)

theorem zone_subset : zone a n ⊆ defining a (2 * n) := by
  rintro k (hk | hk)
  · exact .inl (.inl (.inl (.inl hk)))
  · exact .inr hk

/-- The variables, and memory from `a` on. -/
def behind (a : Cell) : Set Nat := {k | k < 74108 ∨ a.toNat ≤ k}

theorem parse_subset_behind : parse_cells ⊆ behind a := fun _ hk =>
  .inl ((parse_cells_bounds hk).2.trans (by decide))

theorem zone_subset_behind : zone a n ⊆ behind a := fun _ hk =>
  (zone_bounds hk).imp (fun hk => hk.2.trans (by decide)) And.left

theorem base_storage : Label.base.storage.toNat = 68092 := by decide

theorem base_parsed (h : Keeps parse_cells m m') :
    load32 m' Label.base.storage = load32 m Label.base.storage :=
  Label.kept h (by decide) fun k hk hmem => by
    have := parse_cells_bounds hk
    have := hmem.2
    rw [base_storage] at this
    omega

theorem Pending.scanned (h : Pending m d) (hcp : 74108 ≤ (cp m).toNat) : Pending (scanned m) d := by
  refine h.kept scanned_keeps (h.outside hcp fun k hk => .inr (.inl (parse_cells_bounds hk)))
    (fun k hk hmem => ?_) (by rw [cp_scanned])
  have := parse_cells_bounds hk
  have := latest_room_bounds hmem
  omega

theorem Label.kept_zone {l : Label} (h : Keeps (zone a n) m m') (ha : 74108 ≤ a.toNat)
    (hl : l.storage.toNat + 4 ≤ 68084 ∨ 68088 ≤ l.storage.toNat ∧ l.storage.toNat + 4 ≤ 74108) :
    load32 m' l.storage = load32 m l.storage := by
  refine Label.kept h (by omega) fun k hk hmem => ?_
  have := zone_bounds hk
  have := hmem.1
  have := hmem.2
  omega

theorem unflagged_eq {v : Cell} (h : v &&& 1 = 0) : unflagged v = v := by
  have hbit : v.getLsbD 0 = false := by simpa using congrArg (·.getLsbD 0) h
  have hmask : ∀ i < 32, (-2 : Cell).getLsbD i = !decide (i = 0) := by decide
  apply BitVec.eq_of_getLsbD_eq
  intro i hi
  rw [unflagged, BitVec.getLsbD_and, hmask i hi]
  cases i with
  | zero => rw [hbit, Bool.false_and]
  | succ i => simp

/-- Without the immediate flag nothing is cut off. -/
theorem Dentry.token_setWidth (d : Dentry) (h : d.xta.setWidth 32 &&& (1 : Cell) = 0) :
    d.token.setWidth 16 = d.xta := by
  rw [Dentry.token, unflagged_eq h, BitVec.setWidth_setWidth_of_le _ (by decide), BitVec.setWidth_eq]

section Words

variable [Board]

/-- What is left of the text, and that writes to `W` leave it alone. -/
structure Reading (W : Set Nat) (ts : List (List Byte)) (u : Store) : Prop where
  readable : Readable (ptr u.mem) (len u.mem).toNat
  buffer : Apart (parse_cells ∪ W) (ptr u.mem) (len u.mem).toNat
  text : pieces isSpace (text u.mem) = ts

namespace Reading

variable {W V : Set Nat} {t : List Byte} {ts : List (List Byte)} {u : Store} {ds : List Dentry}

theorem parsable (h : Reading W ts u) (hv : Vocabulary u.mem ds) : Parsable ds u :=
  ⟨hv.entries, h.readable, fun i hi hmem => h.buffer i hi (.inl hmem), fun e he k hk hmem => by
    have := parse_cells_bounds hk
    have := (hv.placed e he).bounds hmem
    omega⟩

/-- The next word is taken from the text. -/
theorem scanned (h : Reading W (t :: ts) u) (hv : Vocabulary u.mem ds) :
    ¬ AtEnd u.mem ∧ word u.mem = t ∧ Reading W ts u.scanned := by
  obtain ⟨hend, hword, hrest⟩ := pieces_eq_cons h.text
  have hp := h.parsable hv
  refine ⟨hend, hword, hp.scanned.readable, apart_scanned h.buffer, ?_⟩
  rw [hp.text_scanned]
  exact hrest

theorem mono (h : Reading W ts u) (hV : V ⊆ W) : Reading V ts u :=
  ⟨h.readable, fun i hi hmem => h.buffer i hi (hmem.imp_right fun hk => hV hk), h.text⟩

theorem kept (h : Reading W ts u) (hkeeps : Keeps V u.mem m') (hV : V ⊆ W)
    (hparse : ∀ k ∈ V, k ∉ parse_cells) : Reading W ts ⟨m', io⟩ := by
  have hptr := ptr_kept hkeeps hparse
  have hlen := len_kept hkeeps hparse
  refine ⟨?_, ?_, ?_⟩
  · rw [hptr, hlen]
    exact h.readable
  · rw [hptr, hlen]
    exact h.buffer
  · rw [Scp.text, hptr, hlen, hkeeps.bytes_apart fun i hi hmem => h.buffer i hi (.inr (hV hmem))]
    exact h.text

theorem atEnd (h : Reading W [] u) : AtEnd u.mem := pieces_eq_nil.mp h.text

end Reading

/-- A definition is being compiled: `hs` stands at `a`, `ts` is what is left of the text. There is
room for `n` half words. -/
structure Compiling (a : Cell) (n : Nat) (ds : List Dentry) (d : Dentry) (b : Nat) (hs : List Half)
    (ts : List (List Byte)) (u : Store) : Prop where
  vocabulary : Vocabulary u.mem ds
  pending : Pending u.mem d
  outside : Outside (zone a n) (d :: ds)
  high : a.toNat + 2 * n ≤ sram_hi
  mode : mode u = Label.compile_one_word.offset.setWidth 32
  base : (load32 u.mem Label.base.storage).toNat = b
  growing : Growing u.mem a hs
  reading : Reading (defining a (2 * n)) ts u

namespace Compiling

variable {a : Cell} {n b : Nat} {ds : List Dentry} {d : Dentry} {hs hs' : List Half} {t : List Byte}
  {ts : List (List Byte)} {u : Store} {st pre post : List Cell}

theorem low (h : Compiling a n ds d b hs ts u) : 74108 ≤ a.toNat := by
  have := h.growing.code.low
  rwa [bss_end_toNat] at this

theorem parsable (h : Compiling a n ds d b hs ts u) : Parsable ds u := h.reading.parsable h.vocabulary

theorem scanned (h : Compiling a n ds d b hs (t :: ts) u) :
    ¬ AtEnd u.mem ∧ word u.mem = t ∧ Compiling a n ds d b hs ts u.scanned := by
  obtain ⟨hend, hword, hreading⟩ := h.reading.scanned h.vocabulary
  have hlow := h.low
  refine ⟨hend, hword, h.vocabulary.scanned, h.pending.scanned h.vocabulary.low, h.outside, h.high,
    (mode_kept scanned_keeps).trans h.mode, ?_, ⟨h.growing.code.kept scanned_keeps fun k hk hmem => ?_,
    cp_scanned.trans h.growing.cp⟩, hreading⟩
  · rw [← h.base]
    exact congrArg _ (base_parsed scanned_keeps)
  · have := parse_cells_bounds hk
    omega

/-- What was compiled is outside of everything else. -/
theorem compiled (h : Compiling a n ds d b hs ts u) (hm : Compiled a n u.mem hs' m')
    (hlen : hs.length ≤ hs'.length) : Compiling a n ds d b hs' ts ⟨m', u.io⟩ := by
  have hlow := h.low
  have hcp : (cp u.mem).toNat ≤ (cp m').toNat := by
    rw [h.growing.cp_toNat, hm.growing.cp_toNat]
    omega
  refine ⟨h.vocabulary.kept hm.keeps (fun k hk => ⟨(h.outside k hk).1, fun e he =>
    (h.outside k hk).2 e (List.mem_cons_of_mem _ he)⟩) hcp, h.pending.kept hm.keeps (fun k hk =>
    ⟨(h.outside k hk).1, fun e he => (h.outside k hk).2 e (List.mem_cons.mpr (.inl (List.mem_singleton.mp he)))⟩)
    (fun k hk hmem => ?_) hcp, h.outside, h.high, ?_, ?_, hm.growing,
    h.reading.kept hm.keeps zone_subset fun k hk hmem => ?_⟩
  · have := zone_bounds hk
    have := latest_room_bounds hmem
    omega
  · exact (Label.kept_zone hm.keeps hlow (.inr (by decide))).trans h.mode
  · rw [← h.base]
    exact congrArg _ (Label.kept_zone hm.keeps hlow (.inr (by decide)))
  · have := zone_bounds hk
    have := parse_cells_bounds hmem
    omega

end Compiling

/-- Some words later. What stands in front of the definition is left alone. -/
def Proceeds (a : Cell) (n : Nat) (ds : List Dentry) (d : Dentry) (b : Nat) (hs : List Half)
    (ts : List (List Byte)) (u : Store) (st st' : List Cell) : Prop :=
  ∃ k m', Passes u st k ⟨m', u.io⟩ st' ∧ Keeps (behind a) u.mem m' ∧ Compiling a n ds d b hs ts ⟨m', u.io⟩

variable {a : Cell} {n b : Nat} {ds : List Dentry} {d : Dentry} {hs hs' ks : List Half} {t : List Byte}
  {ts ts' : List (List Byte)} {u : Store} {st st₁ st₂ pre post : List Cell}

theorem Proceeds.next (h : Proceeds a n ds d b hs ts u st st₁)
    (hnext : ∀ m', Compiling a n ds d b hs ts ⟨m', u.io⟩ →
      Proceeds a n ds d b hs' ts' ⟨m', u.io⟩ st₁ st₂) : Proceeds a n ds d b hs' ts' u st st₂ := by
  obtain ⟨k, m₁, hpasses, hkeeps, hm₁⟩ := h
  obtain ⟨k', m₂, hpasses', hkeeps', hm₂⟩ := hnext m₁ hm₁
  exact ⟨k + k', m₂, hpasses.trans hpasses', hkeeps.trans hkeeps', hm₂⟩

-- ---------------------------------------------------------------------------
-- One word
-- ---------------------------------------------------------------------------

variable [Sram]

theorem Compiling.word (h : Compiling a n ds d b hs (t :: ts) u)
    (hword : Returns .compile_one_word u st ⟨m', u.io⟩ (-1 :: st₁))
    (hm : Compiled a n u.scanned.mem hs' m') (hlen : hs.length ≤ hs'.length) :
    Proceeds a n ds d b hs' ts u st st₁ :=
  ⟨1, m', .word .start (one_word_returns (.inr rfl) h.mode hword),
    (scanned_keeps.mono parse_subset_behind).trans (hm.keeps.mono zone_subset_behind),
    h.scanned.2.2.compiled hm hlen⟩

/-- A number or a word that is not immediate. -/
theorem Compiling.atom {x : Atom} (h : Compiling a n ds d b hs (t :: ts) u)
    (hx : resolve b ds t = some x) (hfits : hs.length + sizes.word x ≤ n) (st : List Cell) :
    Proceeds a n ds d b (hs ++ x.halves) ts u st st := by
  obtain ⟨hend, hword, hscanned⟩ := h.scanned
  have hbase : (load32 u.scanned.mem Label.base.storage).toNat = b := hscanned.base
  have hlen : hs.length ≤ (hs ++ x.halves).length := by
    rw [List.length_append]
    omega
  unfold resolve at hx
  cases hv : recognised b t with
  | some v =>
    rw [hv] at hx
    obtain rfl := Option.some.inj hx
    obtain ⟨m₁, hxta, hm₁⟩ := compile_xta_growing hscanned.growing h.high
      (by simp only [sizes] at hfits; omega) (Label.dolit.offset.setWidth 32)
    obtain ⟨m₂, hcell, hm₂⟩ := compile_cell_growing hm₁.growing h.high
      (by simp only [sizes] at hfits; rw [List.length_append, List.length_singleton]; omega)
      (BitVec.ofNat 32 v)
    have hnumber := compile_number h.parsable hend (by rw [hbase, hword, hv]) hxta.acts hcell.acts
    rw [List.append_assoc] at hm₂
    exact h.word (hnumber.returns rfl st) (hm₁.trans hm₂) hlen
  | none =>
    rw [hv] at hx
    cases hd : lookup ds t with
    | none => simp [hd] at hx
    | some e =>
      simp only [hd, Option.ite_none_right_eq_some, Option.some.injEq] at hx
      obtain ⟨hflag, rfl⟩ := hx
      obtain ⟨m₁, hxta, hm₁⟩ := compile_xta_growing hscanned.growing h.high
        (by simp only [sizes] at hfits; omega) e.token
      have hcompiled := compile_word h.parsable hend (by rw [hbase, hword, hv]) (by rw [hword, hd]) hflag
        hxta.acts
      rw [e.token_setWidth hflag] at hm₁
      exact h.word (hcompiled.returns rfl st) hm₁ hlen

/-- A word of a control structure. -/
theorem Compiling.control (h : Compiling a n ds d b hs (t :: ts) u) (hc : Controls ds) {l : Label}
    (hx : (t, l) ∈ control_words) (hlen : hs.length ≤ hs'.length)
    (hdoes : ∀ m, Growing m a hs → ∃ m', Does l m pre post m' ∧ Compiled a n m hs' m') (st : List Cell) :
    Proceeds a n ds d b hs' ts u (pre ++ st) (post ++ st) := by
  obtain ⟨hend, hword, hscanned⟩ := h.scanned
  have hbase : (load32 u.scanned.mem Label.base.storage).toNat = b := hscanned.base
  obtain ⟨e, he, hxta⟩ := hc.immediate _ hx
  obtain ⟨htoken, hflag, hl⟩ := control_entry hx hxta
  obtain ⟨m', hdoes, hm'⟩ := hdoes _ hscanned.growing
  have hexec : Executes e.token u.scanned (pre ++ st) ⟨m', u.io⟩ (post ++ st) := by
    rw [htoken]
    exact (hdoes.acts : Acts l u.scanned _ _ ⟨m', u.io⟩).executes hl st
  exact h.word (compile_executes h.parsable hend (by rw [hbase, hword, recognised_control hx])
    (by rw [hword, he]) hflag hexec) hm' hlen

-- ---------------------------------------------------------------------------
-- Bodies
-- ---------------------------------------------------------------------------

/-- At `p` behind the code field the words `ts` leave the half words `ks`, and the stack as it was. -/
def Compiles (a : Cell) (n : Nat) (ds : List Dentry) (d : Dentry) (b : Nat) (ts : List (List Byte)) (p : Nat)
    (ks : List Half) : Prop :=
  ∀ hs ts' u st, hs.length = p + 1 → hs.length + ks.length ≤ n → Compiling a n ds d b hs (ts ++ ts') u →
    Proceeds a n ds d b (hs ++ ks) ts' u st st

omit [Sram] in
theorem Compiles.nil : Compiles a n ds d b [] p [] := by
  intro hs ts' u st hp hfits h
  rw [List.append_nil]
  exact ⟨0, u.mem, .start, .refl, h⟩

omit [Sram] in
theorem Compiles.append (h : Compiles a n ds d b ts p ks) (hq : p + ks.length = q)
    (h' : Compiles a n ds d b ts' q ks') : Compiles a n ds d b (ts ++ ts') p (ks ++ ks') := by
  subst hq
  intro hs ts'' u st hp hfits hm
  rw [List.length_append] at hfits
  rw [List.append_assoc] at hm
  refine (h hs _ u st hp (by omega) hm).next fun m' hm' => ?_
  rw [← List.append_assoc]
  exact h' _ _ _ st (by rw [List.length_append]; omega) (by rw [List.length_append]; omega) hm'

theorem compiles_atom {x : Atom} (hx : resolve b ds t = some x) : Compiles a n ds d b [t] p x.halves := by
  intro hs ts' u st hp hfits h
  refine h.atom hx ?_ st
  cases x <;> exact hfits

omit [Board] [Sram] in
/-- The placeholder of a branch. -/
theorem set_placeholder (hs ks : List Half) (x y z : Half) :
    (hs ++ [x, y] ++ ks).set (hs.length + 1) z = hs ++ [x, z] ++ ks := by
  rw [List.append_assoc, List.append_assoc, List.set_append_right _ _ (Nat.le_add_right ..),
    Nat.add_sub_cancel_left]
  rfl

theorem compiles_if (hc : Controls ds) (h : Compiles a n ds d b ts (p + 2) ks) :
    Compiles a n ds d b (ascii "IF" :: (ts ++ [ascii "THEN"])) p
      (Label.qbranch.offset :: xta (pos a (p + 2 + ks.length + 1)) :: ks) := by
  intro hs ts' u st hp hfits hm
  simp only [List.length_cons] at hfits
  rw [List.cons_append, List.append_assoc] at hm
  have hif := hm.control hc (l := .compile_if) (by decide) (List.prefix_append ..).length_le
    (fun m hm' => compile_if_does hm' hm.high (by omega)) st
  refine hif.next fun m₁ hm₁ => (h _ _ _ (mark a (hs.length + 1) :: st) ?_ ?_ hm₁).next fun m₂ hm₂ => ?_
  · rw [List.length_append, hp]
    rfl
  · rw [List.length_append, show [Label.qbranch.offset, 0].length = 2 from rfl]
    omega
  have hlen : (hs ++ [Label.qbranch.offset, 0] ++ ks).length = p + 2 + ks.length + 1 := by
    simp only [List.length_append, List.length_cons, List.length_nil]
    omega
  have hset := set_placeholder hs ks Label.qbranch.offset 0 (xta (pos a (p + 2 + ks.length + 1)))
  have hthen := hm₂.control hc (l := .compile_then) (by decide) (by rw [List.length_set])
    (fun m hm' => compile_then_does hm' hm.high (i := hs.length + 1) (by omega) (by omega)) st
  rw [hlen, hset, List.append_assoc] at hthen
  exact hthen

theorem compiles_loop (hc : Controls ds) {w c l : Label} {t : List Byte} (hw : w = .compile_until ∧
    c = .compile_qbranch ∧ l = .qbranch ∨ w = .compile_again ∧ c = .compile_branch ∧ l = .branch)
    (ht : (t, w) ∈ control_words) (h : Compiles a n ds d b ts p ks) :
    Compiles a n ds d b (ascii "BEGIN" :: (ts ++ [t])) p (ks ++ [l.offset, xta (pos a (p + 1))]) := by
  intro hs ts' u st hp hfits hm
  simp only [List.length_append, List.length_cons, List.length_nil] at hfits
  rw [List.cons_append, List.append_assoc] at hm
  have hbegin := hm.control hc (l := .compile_begin) (by decide) (Nat.le_refl _)
    (fun m hm' => ⟨m, compile_begin_does hm', .refl hm'⟩) st
  refine hbegin.next fun m₁ hm₁ => (h _ _ _ (mark a hs.length :: st) hp (by omega) hm₁).next fun m₂ hm₂ => ?_
  have hback := hm₂.control hc (l := w) ht (List.prefix_append ..).length_le
    (fun m hm' => compile_back_does hw hm' hm.high (by rw [List.length_append]; omega) hs.length) st
  rw [List.append_assoc, hp] at hback
  rw [hp]
  exact hback

theorem compiles_for (hc : Controls ds) (h : Compiles a n ds d b ts (p + 1) ks) :
    Compiles a n ds d b (ascii "FOR" :: (ts ++ [ascii "NEXT"])) p
      (Label.tor.offset :: (ks ++ [Label.next.offset, xta (pos a (p + 2))])) := by
  intro hs ts' u st hp hfits hm
  simp only [List.length_append, List.length_cons, List.length_nil] at hfits
  rw [List.cons_append, List.append_assoc] at hm
  have hfor := hm.control hc (l := .compile_for) (by decide) (List.prefix_append ..).length_le
    (fun m hm' => compile_for_does hm' hm.high (by omega)) st
  have hlen : (hs ++ [Label.tor.offset]).length = p + 1 + 1 := by
    rw [List.length_append, hp]
    rfl
  refine hfor.next fun m₁ hm₁ => (h _ _ _ (mark a (hs.length + 1) :: st) hlen (by omega) hm₁).next
    fun m₂ hm₂ => ?_
  have hnext := hm₂.control hc (l := .compile_next) (by decide) (List.prefix_append ..).length_le
    (fun m hm' => compile_next_does hm' hm.high (by rw [List.length_append]; omega) (hs.length + 1)) st
  rw [List.append_assoc, List.append_assoc, hp] at hnext
  rw [hp]
  exact hnext

theorem compiles_aft (hc : Controls ds) (h : Compiles a n ds d b ts (p + 3) ks) :
    Compiles a n ds d b (ascii "FOR" :: ascii "AFT" :: (ts ++ [ascii "THEN", ascii "NEXT"])) p
      (Label.tor.offset :: Label.branch.offset :: xta (pos a (p + 3 + ks.length + 1)) ::
        (ks ++ [Label.next.offset, xta (pos a (p + 4))])) := by
  intro hs ts' u st hp hfits hm
  simp only [List.length_append, List.length_cons, List.length_nil] at hfits
  rw [List.cons_append, List.cons_append, List.append_assoc] at hm
  have hfor := hm.control hc (l := .compile_for) (by decide) (List.prefix_append ..).length_le
    (fun m hm' => compile_for_does hm' hm.high (by omega)) st
  obtain ⟨gs, hgs⟩ : ∃ gs, gs = hs ++ [Label.tor.offset] := ⟨_, rfl⟩
  have hlen : gs.length = p + 2 := by
    rw [hgs, List.length_append, hp]
    rfl
  rw [← hgs] at hfor
  refine hfor.next fun m₁ hm₁ => ?_
  have haft := hm₁.control hc (l := .compile_aft) (by decide) (List.prefix_append ..).length_le
    (fun m hm' => compile_aft_does hm' hm.high (by omega) (mark a (hs.length + 1))) st
  refine haft.next fun m₂ hm₂ => (h _ _ _ (mark a (gs.length + 1) :: mark a (gs.length + 2) :: st) ?_ ?_
    hm₂).next fun m₃ hm₃ => ?_
  · rw [List.length_append, hlen]
    rfl
  · rw [List.length_append, hlen, show [Label.branch.offset, 0].length = 2 from rfl]
    omega
  have hlen' : (gs ++ [Label.branch.offset, 0] ++ ks).length = p + 3 + ks.length + 1 := by
    simp only [List.length_append, List.length_cons, List.length_nil]
    omega
  have hset := set_placeholder gs ks Label.branch.offset 0 (xta (pos a (p + 3 + ks.length + 1)))
  have hthen := hm₃.control hc (l := .compile_then) (by decide) (by rw [List.length_set])
    (fun m hm' => compile_then_does hm' hm.high (i := gs.length + 1) (by omega) (by omega))
    (mark a (gs.length + 2) :: st)
  rw [hlen', hset] at hthen
  refine hthen.next fun m₄ hm₄ => ?_
  have hfits' : (gs ++ [Label.branch.offset, xta (pos a (p + 3 + ks.length + 1))] ++ ks).length + 2 ≤ n := by
    simp only [List.length_append, List.length_cons, List.length_nil]
    omega
  have hnext := hm₄.control hc (l := .compile_next) (by decide) (List.prefix_append ..).length_le
    (fun m hm' => compile_next_does hm' hm.high hfits' (gs.length + 2)) st
  rw [hlen, hgs, List.append_assoc, List.append_assoc, List.append_assoc] at hnext
  rw [hlen]
  exact hnext

/-- A body compiles to its code. -/
theorem compiles_source (hc : Controls ds) {src : Source} {body : Body}
    (h : src.traverse (resolve b ds) = some body) (p : Nat) :
    Compiles a n ds d b (tokens src) p ((body.compile sizes p).flatMap (halves a)) := by
  have hlen (x : Body) (q : Nat) : ((x.compile sizes q).flatMap (halves a)).length = x.size sizes := by
    rw [length_flatMap_halves, Structured.span_compile]
  induction src generalizing body p with
  | done =>
    obtain rfl := Option.some.inj h
    exact .nil
  | word s k ih =>
    obtain ⟨x, y, hx, hy, rfl⟩ := Structured.both_eq_some.mp h
    have hword := (compiles_atom (a := a) (n := n) (d := d) (p := p) hx).append (q := p + sizes.word x)
      (by cases x <;> rfl) (ih hy _)
    exact hword
  | ifThen s k ihs ihk =>
    obtain ⟨x, y, hx, hy, rfl⟩ := Structured.both_eq_some.mp h
    have hif := (compiles_if hc (ihs hx (p + 2))).append (q := p + 2 + x.size sizes)
      (by simp only [List.length_cons, hlen]; omega) (ihk hy _)
    simp only [List.cons_append, List.append_assoc, hlen] at hif
    rw [Prog.compile, List.flatMap_cons, List.flatMap_append]
    exact hif
  | untilLoop s k ihs ihk =>
    obtain ⟨x, y, hx, hy, rfl⟩ := Structured.both_eq_some.mp h
    have hloop := (compiles_loop hc (t := ascii "UNTIL") (.inl ⟨rfl, rfl, rfl⟩) (by decide) (ihs hx p)).append
      (q := p + x.size sizes + 2) (by simp only [List.length_append, hlen]; rfl) (ihk hy _)
    simp only [List.cons_append, List.append_assoc] at hloop
    rw [Prog.compile, List.flatMap_append, List.flatMap_cons]
    exact hloop
  | againLoop s k ihs ihk =>
    obtain ⟨x, y, hx, hy, rfl⟩ := Structured.both_eq_some.mp h
    have hloop := (compiles_loop hc (t := ascii "AGAIN") (.inr ⟨rfl, rfl, rfl⟩) (by decide) (ihs hx p)).append
      (q := p + x.size sizes + 2) (by simp only [List.length_append, hlen]; rfl) (ihk hy _)
    simp only [List.cons_append, List.append_assoc] at hloop
    rw [Prog.compile, List.flatMap_append, List.flatMap_cons]
    exact hloop
  | forNext s k ihs ihk =>
    obtain ⟨x, y, hx, hy, rfl⟩ := Structured.both_eq_some.mp h
    have hfor := (compiles_for hc (ihs hx (p + 1))).append (q := p + 1 + x.size sizes + 2)
      (by simp only [List.length_cons, List.length_append, hlen, List.length_nil]; omega) (ihk hy _)
    simp only [List.cons_append, List.append_assoc] at hfor
    rw [Prog.compile, List.flatMap_cons, List.flatMap_append, List.flatMap_cons]
    exact hfor
  | forAft s k ihs ihk =>
    obtain ⟨x, y, hx, hy, rfl⟩ := Structured.both_eq_some.mp h
    have haft := (compiles_aft hc (ihs hx (p + 3))).append (q := p + 3 + x.size sizes + 2)
      (by simp only [List.length_cons, List.length_append, hlen, List.length_nil]; omega) (ihk hy _)
    simp only [List.cons_append, List.append_assoc, hlen] at haft
    rw [Prog.compile, List.flatMap_cons, List.flatMap_cons, List.flatMap_append, List.flatMap_cons]
    exact haft

end Words

end Allwinner.Scp
