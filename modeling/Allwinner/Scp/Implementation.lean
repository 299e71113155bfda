import Allwinner.Scp.Compilation

/-!
# A definition implements its body

From the colon to the semicolon: a new entry is linked in front of the others, and the code
behind it is that of the body.
-/

namespace Allwinner.Scp

open Library Memory
open Library.Structured (Prog Means)
open Forth hiding ip ds rs mem io jump one two

/-- The bytes a definition of `w` takes at most. -/
def definition_size (w : List Byte) (body : Body) : Nat := w.length + 15 + 2 * (body.size sizes + 1)

theorem defining_bounds (h : k ∈ defining c n) :
    (68084 ≤ k ∧ k < 68120) ∨ (69788 ≤ k ∧ k < 69792) ∨ (c.toNat ≤ k ∧ k < c.toNat + n) := by
  obtain (((hk | hk) | hk) | hk) | ⟨hlo, hhi⟩ := h
  · have := cp_room_bounds hk
    omega
  · have := latest_room_bounds hk
    omega
  · have := eval_xt_room_bounds hk
    omega
  · exact .inr (.inl (current_room_bounds hk))
  · exact .inr (.inr ⟨hlo, hhi⟩)

theorem colon_token {d : Dentry} (hd : d.xta = Label.colon.offset) :
    d.token = Label.colon.offset.setWidth 32 := by
  rw [Dentry.token, hd]
  decide

section Room

variable {m : Memory 32} {w : List Byte} {body : Body}

/-- Between the name and the end of the code. -/
theorem code_at_bounds (h : Room m (definition_size w body)) :
    (entry_at m).toNat + (7 + w.length) ≤ (code_at m w.length).toNat ∧
      (cp m).toNat ≤ (entry_at m).toNat ∧ (code_at m w.length).toNat % 2 = 0 ∧
      (code_at m w.length).toNat + 2 * (body.size sizes + 2) ≤ (cp m).toNat + definition_size w body := by
  have hroom : Room m (w.length + 15) := h.mono (Nat.le_add_right ..)
  have hd := entry_at_toNat hroom
  have he := code_at_toNat hroom
  unfold definition_size
  omega

theorem created_subset (h : Room m (definition_size w body)) (hn : 1 ≤ n)
    (hk : (code_at m w.length).toNat + 2 * n ≤ (cp m).toNat + k) :
    created_cells m w.length ⊆ defining (cp m) k := by
  have := code_at_bounds h
  rintro i ((hi | hi) | ⟨hlo, hhi⟩)
  · exact .inl (.inl (.inl (.inl hi)))
  · exact .inl (.inl (.inl (.inr hi)))
  · exact .inr ⟨hlo, by omega⟩

theorem defining_subset (ha : c.toNat ≤ a.toNat) (hn : a.toNat + n ≤ c.toNat + k) :
    defining a n ⊆ defining c k := by
  rintro i (hi | ⟨hlo, hhi⟩)
  · exact .inl hi
  · exact .inr ⟨by omega, by omega⟩

end Room

section Words

variable [Board]

theorem reading_parsing {u : Store} {c n : Cell} (hread : Readable c n.toNat)
    (hbuffer : Apart (parse_cells ∪ W) c n.toNat) (htext : pieces isSpace (bytes u.mem c n.toNat) = ts) :
    Reading W ts (u.parsing c n) := by
  refine ⟨?_, ?_, ?_⟩
  · rwa [ptr_parsing, len_parsing]
  · rwa [ptr_parsing, len_parsing]
  · rw [text, ptr_parsing, len_parsing, (parsing_keeps u c n).bytes_apart fun i hi hmem =>
      hbuffer i hi (.inl hmem)]
    exact htext

omit [Board] in
theorem growing_created (hm : Created m w m') (hroom : Room m (definition_size w body)) :
    Growing (mode_set m' .compile_one_word) (code_at m w.length) [Prim.code .dolist] := by
  have hbounds := code_at_bounds hroom
  have hroom' : Room m (w.length + 15) := hroom.mono (Nat.le_add_right ..)
  have hentry := entry_at_toNat hroom'
  have hcode := code_at_toNat hroom'
  have hfits := hroom'.fits
  have hlow := hroom.low
  refine ⟨⟨hbounds.2.2.1, by omega, ?_, ?_⟩, (cp_mode_set ..).trans hm.cp⟩
  · simp only [List.length_singleton, sram_hi]
    omega
  · have hkeeps := mode_set_keeps m' .compile_one_word
    rw [bss_end_toNat] at hlow
    rw [List.length_singleton, hkeeps.bytes (by omega) fun k hlo hhi hk => ?_, bytes16_load16, hm.code]
    · rfl
    · have := eval_xt_room_bounds hk
      omega

omit [Board] in
theorem base_created (hm : Created m w m') (hroom : Room m (w.length + 15)) :
    load32 (mode_set m' .compile_one_word) Label.base.storage = load32 m Label.base.storage := by
  refine Label.kept (hm.keeps.union (mode_set_keeps _ _)) (by decide) fun k hk hmem => ?_
  obtain ⟨hlo, hhi⟩ := hmem
  rw [base_storage] at hlo hhi
  have hlow := hroom.low
  rw [bss_end_toNat] at hlow
  obtain ((hk | hk) | ⟨hk, -⟩) | hk := hk
  · have := cp_room_bounds hk
    omega
  · have := latest_room_bounds hk
    omega
  · omega
  · have := eval_xt_room_bounds hk
    omega

/-- Behind the head of a new entry its body is to be compiled. -/
theorem compiling_created {ds : List Dentry} {body : Body} (hv : Vocabulary m ds) (hm : Created m w m')
    (hroom : Room m (definition_size w body)) (hn : 1 ≤ n)
    (hhigh : (code_at m w.length).toNat + 2 * n ≤ sram_hi)
    (hk : (code_at m w.length).toNat + 2 * n ≤ (cp m).toNat + k) (hr : Reading (defining (cp m) k) ts ⟨m, io⟩) :
    Compiling (code_at m w.length) n ds (entry m w) (load32 m Label.base.storage).toNat [Prim.code .dolist] ts
      ⟨mode_set m' .compile_one_word, io⟩ := by
  have hbounds := code_at_bounds hroom
  have hlow := hv.low
  have hroom' : Room m (w.length + 15) := hroom.mono (Nat.le_add_right ..)
  obtain ⟨hv', hp'⟩ := hv.created hroom' hm
  have hkeeps := hm.keeps.union (mode_set_keeps m' .compile_one_word)
  refine ⟨hv'.mode_set _, hp'.mode_set hv'.low _, fun k hk => ⟨fun hmem => ?_, fun e he hmem => ?_⟩, hhigh,
    mode_mode_set .., congrArg _ (base_created hm hroom'), growing_created hm hroom,
    (hr.kept hkeeps ?_ fun k hk hmem => ?_).mono (defining_subset (by omega) hk)⟩
  · have := zone_bounds hk
    have := current_room_bounds hmem
    omega
  · have := zone_bounds hk
    obtain rfl | he := List.mem_cons.mp he
    · obtain ⟨hlo, hhi⟩ := hmem
      change (entry_at m).toNat ≤ k at hlo
      change k < (entry_at m).toNat + (7 + w.length) at hhi
      omega
    · have := (hv.placed e he).bounds hmem
      omega
  · exact Set.union_subset (created_subset hroom hn hk) fun k hk => .inl (.inl (.inr hk))
  · have := colon_cells_bounds hroom' hk
    have := parse_cells_bounds hmem
    omega

omit [Board] in
/-- A new entry leaves what stands in front of it. -/
theorem created_behind (hm : Created m w m') (hroom : Room m (w.length + 15)) :
    Keeps (behind (cp m)) m (mode_set m' .compile_one_word) := by
  refine (hm.keeps.union (mode_set_keeps m' .compile_one_word)).mono fun k hk => ?_
  obtain ⟨-, hk⟩ | ⟨hk, -⟩ := colon_cells_bounds hroom hk
  · exact .inl (hk.trans (by decide))
  · exact .inr hk

/-- The text goes on with the definition of `w`, behind it with `ts`. Memory up to `e` may be used. -/
structure Definable (ds : List Dentry) (b : Nat) (w : List Byte) (src : Source) (body : Body)
    (ts : List (List Byte)) (e : Nat) (u : Store) : Prop where
  vocabulary : Vocabulary u.mem ds
  controls : Controls ds
  mode : mode u = Label.interpret_one_word.offset.setWidth 32
  base : (load32 u.mem Label.base.storage).toNat = b
  resolved : src.traverse (resolve b ds) = some body
  fits : (cp u.mem).toNat + definition_size w body ≤ e
  high : e ≤ sram_hi
  reading : Reading (defining (cp u.mem) (e - (cp u.mem).toNat))
    (ascii ":" :: w :: (tokens src ++ ascii ";" :: ts)) u

/-- One definition later. -/
structure Extends (ds : List Dentry) (b : Nat) (w : List Byte) (body : Body) (ts : List (List Byte)) (e : Nat)
    (u v : Store) : Prop where
  vocabulary : Vocabulary v.mem (entry u.mem w :: ds)
  mode : mode v = Label.interpret_one_word.offset.setWidth 32
  base : (load32 v.mem Label.base.storage).toNat = b
  io : v.io = u.io
  code : Code v.mem (code_at u.mem w.length) (definition_code (code_at u.mem w.length) body)
  cp : cp v.mem = pos (code_at u.mem w.length) (body.size sizes + 2)
  keeps : Keeps (behind (Scp.cp u.mem)) u.mem v.mem
  reading : Reading (defining (code_at u.mem w.length) (e / 2 * 2 - (code_at u.mem w.length).toNat)) ts v

/-- `n` characters at `c` define `w`, and are to be interpreted. -/
structure Defines (ds : List Dentry) (c n : Cell) (w : List Byte) (src : Source) (body : Body)
    (u : Store) : Prop where
  vocabulary : Vocabulary u.mem ds
  controls : Controls ds
  mode : mode u = Label.interpret_one_word.offset.setWidth 32
  text : pieces isSpace (bytes u.mem c n.toNat) = ascii ":" :: w :: (tokens src ++ [ascii ";"])
  resolved : src.traverse (resolve (load32 u.mem Label.base.storage).toNat ds) = some body
  room : Room u.mem (definition_size w body)
  readable : Readable c n.toNat
  buffer : Apart (parse_cells ∪ defining (cp u.mem) (definition_size w body)) c n.toNat

variable [Sram] {ds : List Dentry} {c n : Cell} {w : List Byte} {src : Source} {body : Body} {u : Store}

/-- The semicolon. -/
theorem semicolon_ends {a : Cell} {n b : Nat} {d : Dentry} {hs : List Half} {ts : List (List Byte)}
    (h : Compiling a n ds d b hs (ascii ";" :: ts) u) (hc : Controls ds) (hfits : hs.length + 1 ≤ n)
    (st : List Cell) :
    ∃ m', Returns .evaluate_one_word u st ⟨m', u.io⟩ (-1 :: st) ∧ Vocabulary m' (d :: ds) ∧
      mode ⟨m', u.io⟩ = Label.interpret_one_word.offset.setWidth 32 ∧
      (load32 m' Label.base.storage).toNat = b ∧ Growing m' a (hs ++ [Label.exit.offset]) ∧
      Keeps (behind a) u.mem m' ∧ Reading (defining a (2 * n)) ts ⟨m', u.io⟩ := by
  obtain ⟨hend, hword, hscanned⟩ := h.scanned
  have hbase : (load32 u.scanned.mem Label.base.storage).toNat = b := hscanned.base
  have hx : (ascii ";", Label.semicolon) ∈ control_words := by decide
  have hlow := h.low
  have hhigh := h.high
  obtain ⟨e, he, hxta⟩ := hc.immediate _ hx
  obtain ⟨htoken, hflag, hl⟩ := control_entry hx hxta
  obtain ⟨m₁, happ, hsemicolon⟩ := semicolon_does (hscanned.growing.room (k := 1) (by omega)) hscanned.growing.even
  have hcompiled := hscanned.growing.append [Label.exit.offset] h.high hfits happ
  have hm₁ := hscanned.compiled hcompiled (List.prefix_append ..).length_le
  have hkeeps := (committed_keeps (m := m₁)).union (mode_set_keeps (committed m₁) .interpret_one_word)
  have hvariables : ∀ k ∈ Label.current.room ∪ Label.eval_xt.room, 68116 ≤ k ∧ k < 69792 ∧
      (68120 ≤ k → 69788 ≤ k) := by
    rintro k (hk | hk)
    · have := current_room_bounds hk
      omega
    · have := eval_xt_room_bounds hk
      omega
  have hexec : Executes e.token u.scanned st ⟨mode_set (committed m₁) .interpret_one_word, u.io⟩ st := by
    rw [htoken]
    exact (hsemicolon.acts : Acts .semicolon u.scanned _ _ ⟨_, u.io⟩).executes hl st
  refine ⟨_, one_word_returns (.inr rfl) h.mode (compile_executes h.parsable hend
    (by rw [hbase, hword, recognised_control hx]) (by rw [hword, he]) hflag hexec),
    (hm₁.vocabulary.committed hm₁.pending).mode_set _, mode_mode_set .., ?_,
    ⟨hm₁.growing.code.kept hkeeps ?_, ?_⟩, ?_, hm₁.reading.kept hkeeps ?_ ?_⟩
  · rw [← hm₁.base]
    refine congrArg _ (Label.kept hkeeps (by decide) fun k hk hmem => ?_)
    have := hvariables k hk
    have := hmem.2
    rw [base_storage] at this
    omega
  · rintro k hk ⟨hlo, -⟩
    have := hvariables k hk
    omega
  · rw [cp_mode_set, cp_committed, hm₁.growing.cp]
  · refine ((scanned_keeps.mono parse_subset_behind).trans (hcompiled.keeps.mono zone_subset_behind)).trans
      (hkeeps.mono fun k hk => ?_)
    exact .inl ((hvariables k hk).2.1.trans (by decide))
  · rintro k (hk | hk)
    · exact .inl (.inr hk)
    · exact .inl (.inl (.inr hk))
  · intro k hk hmem
    have := hvariables k hk
    have := parse_cells_bounds hmem
    omega

namespace Definable

variable {b e n : Nat} {ts : List (List Byte)}

omit [Sram] in
theorem room (h : Definable ds b w src body ts e u) : Room u.mem (definition_size w body) := by
  refine ⟨?_, h.fits.trans h.high⟩
  rw [bss_end_toNat]
  exact h.vocabulary.low

/-- The colon and the name. -/
theorem begins (h : Definable ds b w src body ts e u) (hn : 1 ≤ n)
    (he : (code_at u.mem w.length).toNat + 2 * n ≤ e) (st : List Cell) :
    ∃ m', Passes u st 1 ⟨m', u.io⟩ st ∧ Keeps (behind (cp u.mem)) u.mem m' ∧
      Compiling (code_at u.mem w.length) n ds (entry u.mem w) b [Prim.code .dolist]
        (tokens src ++ ascii ";" :: ts) ⟨m', u.io⟩ := by
  obtain ⟨hend, hword, hr₁⟩ := h.reading.scanned h.vocabulary
  obtain ⟨hend₁, hword₁, hr₂⟩ := hr₁.scanned h.vocabulary.scanned
  obtain ⟨d, hd, hxta⟩ := h.controls.colon
  have hkeeps : Keeps parse_cells u.mem (Scp.scanned u.scanned.mem) := scanned_keeps.trans scanned_keeps
  have hcp : cp (Scp.scanned u.scanned.mem) = cp u.mem := cp_parsed hkeeps
  have hfits := h.fits
  have hroom : Room (Scp.scanned u.scanned.mem) (definition_size w body) := by
    refine ⟨?_, ?_⟩ <;> rw [hcp]
    · exact h.room.low
    · exact h.room.high
  have hentry : entry_at (Scp.scanned u.scanned.mem) = entry_at u.mem := congrArg cell_align hcp
  have hcode : code_at (Scp.scanned u.scanned.mem) w.length = code_at u.mem w.length := by
    rw [code_at, code_at, hentry]
  have hspace : (code_at (Scp.scanned u.scanned.mem) w.length).toNat + 2 * n ≤
      (cp (Scp.scanned u.scanned.mem)).toNat + (e - (cp u.mem).toNat) := by
    rw [hcode, hcp]
    omega
  obtain ⟨m₁, hcreated, hcolon⟩ := colon_does (hr₁.parsable h.vocabulary.scanned).scannable hend₁
    (by rw [hword₁]; exact hroom.mono (Nat.le_add_right ..))
    (by
      rw [hword₁]
      refine fun i hi hmem => hr₁.buffer i hi (hmem.imp_right fun hk => ?_)
      rw [← hcp]
      exact created_subset hroom hn (hcp ▸ hspace) hk)
  rw [hword₁] at hcreated
  rw [← hcp] at hr₂
  have hcompiling := compiling_created h.vocabulary.scanned.scanned hcreated hroom hn
    (by rw [hcode]; exact he.trans h.high) (hcp ▸ hspace) (hcp ▸ hr₂)
  rw [hcode, entry, hentry, hcode, base_parsed hkeeps, h.base] at hcompiling
  have hbehind := created_behind hcreated (hroom.mono (Nat.le_add_right ..))
  rw [hcp] at hbehind
  have hexec : Executes d.token u.scanned st ⟨mode_set m₁ .compile_one_word, u.io⟩ st := by
    rw [colon_token hxta]
    exact (hcolon.acts : Acts .colon u.scanned _ _ ⟨_, u.io⟩).executes (by decide) st
  exact ⟨_, .word .start (one_word_returns (.inl rfl) h.mode
    (interpret_executes (h.reading.parsable h.vocabulary) hend (by rw [hword, recognised_colon])
      (by rw [hword, hd]) hexec)), (hkeeps.mono parse_subset_behind).trans hbehind, hcompiling⟩

/-- From the colon to the semicolon. -/
theorem passes (h : Definable ds b w src body ts e u) (st : List Cell) :
    ∃ k v, Passes u st k v st ∧ Extends ds b w body ts e u v := by
  have hbounds := code_at_bounds h.room
  have hfits := h.fits
  have hlen : ((body.compile sizes 0).flatMap (halves (code_at u.mem w.length))).length = body.size sizes := by
    rw [length_flatMap_halves, Structured.span_compile]
  obtain ⟨n, hn⟩ : ∃ n, (code_at u.mem w.length).toNat + 2 * n = e / 2 * 2 :=
    ⟨(e - (code_at u.mem w.length).toNat) / 2, by omega⟩
  obtain ⟨m₁, hpasses₁, hkeeps₁, hm₁⟩ := h.begins (n := n) (by omega) (by omega) st
  obtain ⟨k, m₂, hpasses₂, hkeeps₂, hm₂⟩ := compiles_source h.controls h.resolved 0 _ _ _ st rfl
    (by rw [hlen, List.length_singleton]; omega) hm₁
  obtain ⟨m₃, hreturns, hvocabulary, hmode, hbase, hgrowing, hkeeps₃, hreading⟩ := semicolon_ends hm₂ h.controls
    (by rw [List.length_append, hlen, List.length_singleton]; omega) st
  have hmono : behind (code_at u.mem w.length) ⊆ behind (cp u.mem) := fun k hk =>
    hk.imp_right fun hk => (show (cp u.mem).toNat ≤ _ by omega).trans hk
  refine ⟨1 + k + 1, ⟨m₃, u.io⟩, (hpasses₁.trans hpasses₂).word hreturns, hvocabulary, hmode, hbase, rfl,
    hgrowing.code, ?_, hkeeps₁.trans ((hkeeps₂.trans hkeeps₃).mono hmono), ?_⟩
  · rw [hgrowing.cp, List.length_append, List.length_append, hlen]
    exact congrArg _ (by simp only [List.length_singleton]; omega)
  · rw [← hn, Nat.add_sub_cancel_left]
    exact hreading

end Definable

/-- The text was read, and there is one more entry. Its word is the code of `body`. -/
structure Added (ds : List Dentry) (d : Dentry) (body : Body) (u v : Store) : Prop where
  consumed : AtEnd v.mem
  mode : mode v = Label.interpret_one_word.offset.setWidth 32
  io : v.io = u.io
  vocabulary : Vocabulary v.mem (d :: ds)
  found : d.name.length < 256 → lookup (d :: ds) d.name = some d
  code : Code v.mem (start + d.token) (definition_code (start + d.token) body)

omit [Board] [Sram] in
/-- The token of a new entry is where its code is. -/
theorem start_add_entry_token (h : Room m (definition_size w body)) :
    start + (entry m w).token = code_at m w.length := by
  have hbounds := code_at_bounds h
  have hlow := h.low
  have hhigh := h.high
  rw [bss_end_toNat] at hlow
  unfold sram_hi at hhigh
  have hxta : start + (xta (code_at m w.length)).setWidth 32 = code_at m w.length :=
    start_add_xta (by rw [show start.toNat = 65536 by decide]; omega) (by omega)
  have hsum := congrArg BitVec.toNat hxta
  rw [BitVec.toNat_add, show start.toNat = 65536 by decide] at hsum
  have hlt := ((xta (code_at m w.length)).setWidth 32).isLt
  rw [Dentry.token, show (entry m w).xta = xta (code_at m w.length) from rfl, unflagged_eq, hxta]
  apply BitVec.eq_of_toNat_eq
  rw [BitVec.toNat_and, show (1 : Cell).toNat = 1 from rfl, Nat.and_one_is_mod,
    show (0 : Cell).toNat = 0 from rfl]
  omega

omit [Board] [Sram] in
theorem lookup_self {ds : List Dentry} (h : d.name.length < 256) : lookup (d :: ds) d.name = some d := by
  rw [lookup, List.find?_cons, Dentry.known_eq h, beq_self_eq_true]

omit [Sram] in
theorem Defines.definable (h : Defines ds c n w src body u) :
    Definable ds (load32 u.mem Label.base.storage).toNat w src body []
      ((cp u.mem).toNat + definition_size w body) (u.parsing c n) := by
  have hkeeps := parsing_keeps u c n
  have hcp := cp_parsed hkeeps
  refine ⟨h.vocabulary.parsed hkeeps, h.controls, (mode_parsing ..).trans h.mode,
    congrArg _ (base_parsed hkeeps), h.resolved, Nat.le_of_eq (by rw [hcp]), h.room.high, ?_⟩
  rw [hcp, Nat.add_sub_cancel_left]
  exact reading_parsing h.readable h.buffer h.text

theorem Defines.added (h : Defines ds c n w src body u) (st : List Cell) :
    ∃ v, Returns .evaluate u (n :: c :: st) v st ∧ Added ds (entry u.mem w) body u v := by
  have htoken := start_add_entry_token h.room
  have hcp := cp_parsed (parsing_keeps u c n)
  have hentry : entry_at (u.parsing c n).mem = entry_at u.mem := congrArg cell_align hcp
  have hcode : code_at (u.parsing c n).mem w.length = code_at u.mem w.length := by
    rw [code_at, code_at, hentry]
  obtain ⟨k, v, hpasses, hv⟩ := h.definable.passes st
  have hend := one_word_end (.inl rfl) (hv.reading.parsable hv.vocabulary) hv.reading.atEnd
  have hvocabulary := hv.vocabulary
  have hcompiled := hv.code
  rw [entry, hentry, hcode] at hvocabulary
  rw [hcode, ← htoken] at hcompiled
  exact ⟨v, hpasses.returns (one_word_returns (.inl rfl) hv.mode (hend.returns rfl st)),
    hv.reading.atEnd, hv.mode, hv.io, hvocabulary, lookup_self, hcompiled⟩

/-- The text of a definition is read and leaves the data stack as it was. It adds one entry, and
as long as nothing overwrites its code, the word does what the body means. -/
theorem definition_implements (h : Defines ds c n w src body u) (st : List Cell) :
    ∃ v d, d.name = w ∧ Returns .evaluate u (n :: c :: st) v st ∧
      ReturnsBounded .evaluate u (n :: c :: st) v st ∧ Added ds d body u v ∧ Implements (start + d.token) body := by
  obtain ⟨v, hreturns, hadded⟩ := h.added st
  exact ⟨v, _, rfl, hreturns, hreturns.bounded, hadded, implements ..⟩

end Words

-- ---------------------------------------------------------------------------
-- Definitions in a request
-- ---------------------------------------------------------------------------

theorem static_controls : Controls static_dictionary where
  colon := ⟨⟨0x10fb0, Label.colon.offset, ascii ":"⟩, by decide +kernel, rfl⟩
  immediate x hx := by
    have hall : ∀ x ∈ control_words, ∃ d ∈ static_dictionary, lookup static_dictionary x.1 = some d ∧
      d.xta = x.2.offset ||| 1 := by decide +kernel
    obtain ⟨d, -, hd⟩ := hall x hx
    exact ⟨d, hd⟩

namespace Implementation

local instance : Board := .flat
local instance : Sram := .flat

theorem defines_request {s w : List Byte} {src : Source} {body : Body} (hs : s.length ≤ 1020)
    (htext : pieces isSpace s = ascii ":" :: w :: (tokens src ++ [ascii ";"]))
    (hbody : src.traverse (resolve 10 static_dictionary) = some body)
    (hsize : definition_size w body ≤ 6700) :
    Defines static_dictionary mib_text (BitVec.ofNat 32 s.length) w src body (request s) := by
  have hcp : cp (request s).mem = bss_end := variable_request hs (by decide)
  have hbase : load32 (request s).mem Label.base.storage = 10 := variable_request hs (by decide)
  have htext' : mib_text.toNat = 80900 := by decide
  have hlen : (BitVec.ofNat 32 s.length).toNat = s.length := by
    rw [BitVec.toNat_ofNat]
    omega
  have hi := interpretable_request hs
  refine ⟨(Defined.start hi.entries hcp).vocabulary.1, static_controls, mode_request hs, ?_, ?_, ⟨?_, ?_⟩, ?_, ?_⟩
  · rw [hlen, (consumed_request hs).chars, htext]
  · rw [hbase]
    exact hbody
  · rw [hcp]
  · rw [hcp, bss_end_toNat]
    unfold sram_hi
    omega
  · rw [hlen]
    exact (Span.behind (by decide) (by unfold sram_hi; omega)).readable
  · rw [hlen, hcp]
    intro i hi hmem
    rw [toNat_add_ofNat (by omega)] at hmem
    obtain hmem | hmem := hmem
    · have := parse_cells_bounds hmem
      omega
    · have := defining_bounds hmem
      rw [bss_end_toNat] at this
      omega

/-- The sum of the numbers below one that is at most a hundred. -/
def below : Source :=
  .word (ascii "dup") (.word (ascii "100") (.word (ascii "<") (.word (ascii "not") (.ifThen
    (.word (ascii "drop") (.word (ascii "100") .done))
    (.word (ascii "0") (.word (ascii "swap") (.forAft (.word (ascii "r@") (.word (ascii "+") .done)) .done)))))))

def below_text : List Byte :=
  ascii ": below dup 100 < not IF drop 100 THEN 0 swap FOR AFT r@ + THEN NEXT ;"

theorem below_defined : ∃ body v d, below.traverse (resolve 10 static_dictionary) = some body ∧
    d.name = ascii "below" ∧
    Returns .evaluate (request below_text) [BitVec.ofNat 32 below_text.length, mib_text] v [] ∧
    ReturnsBounded .evaluate (request below_text) [BitVec.ofNat 32 below_text.length, mib_text] v [] ∧
    Added static_dictionary d body (request below_text) v ∧ Implements (start + d.token) body := by
  have hsize : (below.traverse (resolve 10 static_dictionary)).map (Prog.size sizes) = some 23 := by
    decide +kernel
  obtain ⟨body, hbody, hbody'⟩ := Option.map_eq_some_iff.mp hsize
  have hfits : definition_size (ascii "below") body ≤ 6700 := by
    rw [definition_size, hbody']
    decide
  obtain ⟨v, d, hv⟩ := definition_implements (defines_request (s := below_text) (by decide)
    (by decide +kernel) hbody hfits) []
  exact ⟨body, v, d, hbody, hv⟩

/-- The code of `w` is at 74116. The store puts the end of a list where the last literal stands. -/
def overwriting : Source :=
  .word (ascii "101711872") (.word (ascii "74132") (.word (ascii "!") (.word (ascii "5") .done)))

def overwriting_text : List Byte := ascii ": w 101711872 74132 ! 5 ;"

def overwriting_body : Body :=
  .word (.lit 101711872) (.word (.lit 74132) (.word (.xt Label.store.offset) (.word (.lit 5) .done)))

theorem overwriting_defines : Defines static_dictionary mib_text (BitVec.ofNat 32 overwriting_text.length)
    (ascii "w") overwriting overwriting_body (request overwriting_text) :=
  defines_request (by decide) (by decide +kernel) (by decide +kernel) (by decide)

/-- What runs is the code as the store has left it. -/
theorem overwriting_runs (hcode : Code m 74116 (definition_code 74116 overwriting_body)) (ip : Ip)
    (rs : List Ip) (io : Io) : ∃ u, enter false 74116 ⟨ip, [], rs, m, io, none⟩ = .on u ∧
      Leads u ⟨ip, [], rs, store32 m 74132 101711872, io, none⟩ := by
  refine ⟨_, hcode.enters rfl, ?_⟩
  have hstored : store_access 4 (74132 : Cell) = .ram := store_access_behind (n := 4) rfl (by decide) (by decide) (by decide)
  have hend : Code (store32 m 74132 101711872) 74132 [Label.exit.offset] := by
    have hhalf := congrArg (BitVec.extractLsb' 16 16)
      (load32_store32 (m := m) (a := 74132) (101711872 : Cell) (by decide))
    rw [load32, BitVec.extractLsb'_append_eq_left] at hhalf
    refine ⟨by decide, by decide, by decide, ?_⟩
    rw [List.length_singleton, bytes16_load16, hhalf]
    decide
  calc
    Leads ⟨.ram (pos 74116 1), [], ip :: rs, m, io, none⟩
      ⟨.ram (pos 74116 4), [101711872], ip :: rs, m, io, none⟩ := hcode.lit rfl rfl rfl
    Leads _ ⟨.ram (pos 74116 7), [74132, 101711872], ip :: rs, m, io, none⟩ := hcode.lit rfl rfl rfl
    Leads _ ⟨.ram (pos 74116 8), [], ip :: rs, store32 m 74132 101711872, io, none⟩ :=
      (store_does hstored).code hcode rfl (by decide)
    Leads _ _ := hend.exits (i := 0) rfl

/-- A word that stores into its own code does not do what its body means. -/
theorem own_code_overwritten : Defines static_dictionary mib_text (BitVec.ofNat 32 overwriting_text.length)
      (ascii "w") overwriting overwriting_body (request overwriting_text) ∧
    ∃ v d m', d.name = ascii "w" ∧ Added static_dictionary d overwriting_body (request overwriting_text) v ∧
      Returns .evaluate (request overwriting_text) [BitVec.ofNat 32 overwriting_text.length, mib_text] v [] ∧
      Means (counts fun _ => True) overwriting_body ⟨[], [], v.mem, v.io⟩ ⟨[5], [], m', v.io⟩ ∧
      ¬ Computes (start + d.token) ⟨[], [], v.mem, v.io⟩ ⟨[5], [], m', v.io⟩ := by
  obtain ⟨v, hreturns, hadded⟩ := overwriting_defines.added []
  have hcp : cp (request overwriting_text).mem = bss_end := variable_request (by decide) (by decide)
  have htoken := start_add_entry_token overwriting_defines.room
  rw [code_at, entry_at, hcp, show cell_align (cell_align bss_end + BitVec.ofNat 32 (7 + (ascii "w").length)) =
    74116 by decide] at htoken
  have hcode := hadded.code
  rw [htoken] at hcode
  have hstored : store_access 4 (74132 : Cell) = .ram := store_access_behind (n := 4) rfl (by decide) (by decide) (by decide)
  have hstore : Computes (start + Label.store.offset.setWidth 32) ⟨[74132, 101711872], [], v.mem, v.io⟩
      ⟨[], [], store32 v.mem 74132 101711872, v.io⟩ := (store_does hstored).computes (by decide)
  refine ⟨overwriting_defines, v, _, store32 v.mem 74132 101711872, rfl, hadded, hreturns,
    .word rfl (.word rfl (.word ⟨hstore, trivial⟩ (.word rfl .done))), fun hcomputes => ?_⟩
  rw [htoken] at hcomputes
  obtain ⟨u, henter, hleads⟩ := hcomputes (.rom .main 1000) []
  obtain ⟨u', henter', hleads'⟩ := overwriting_runs hcode (.rom .main 1000) [] v.io
  obtain rfl : u = u' := Turn.on.inj (henter.symm.trans henter')
  have hsame := Leads.unique hleads hleads' (fun t hstep => by cases hstep) fun t hstep => by cases hstep
  cases congrArg Forth.ds hsame

end Implementation

end Allwinner.Scp
