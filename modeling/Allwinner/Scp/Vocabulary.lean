import Allwinner.Scp.Definitions

/-!
# The vocabulary

What can be found by name after any number of definitions. An entry is linked in front of
the others when it is committed, and its name is found again as far as its count byte
tells: exactly, if it has less than 256 characters.
-/

namespace Allwinner.Scp

open Library Memory
open Forth hiding ip ds rs mem io jump one two

theorem current_storage : Label.current.storage.toNat = 69788 := by decide

theorem current_room_bounds (h : n ∈ Label.current.room) : 69788 ≤ n ∧ n < 69792 := by
  obtain ⟨hlo, hhi⟩ := h
  rw [current_storage] at hlo hhi
  exact ⟨hlo, hhi⟩

/-- The newest entry that has the name. -/
def named (ds : List Dentry) (w : List Byte) : Option Dentry := ds.find? (·.name == w)

theorem lookup_eq_named {ds : List Dentry} (h : ∀ d ∈ ds, d.name.length < 256) (w : List Byte) :
    lookup ds w = named ds w := by
  induction ds with
  | nil => rfl
  | cons d ds ih =>
    have hd : d.known = d.name := Dentry.known_eq (h d (List.mem_cons_self ..))
    have hrest : lookup ds w = named ds w := ih fun e he => h e (List.mem_cons_of_mem _ he)
    unfold lookup named at hrest ⊢
    rw [List.find?_cons, List.find?_cons, hd, hrest]

/-- No text of 256 characters or more is found. -/
theorem lookup_long {ds : List Dentry} (hw : 256 ≤ w.length) : lookup ds w = none := by
  rw [lookup_eq_none]
  intro hmem
  obtain ⟨d, -, rfl⟩ := List.mem_map.mp hmem
  rw [Dentry.length_known] at hw
  have := Nat.mod_lt d.name.length (by decide : 256 > 0)
  omega

theorem named_eq_none {ds : List Dentry} : named ds w = none ↔ ∀ d ∈ ds, d.name ≠ w := by
  simp [named]

/-- A new word hides no other name. -/
theorem named_cons_of_ne {ds : List Dentry} (h : d.name ≠ w) : named (d :: ds) w = named ds w := by
  rw [named, List.find?_cons, beq_eq_false_iff_ne.mpr h]
  rfl

theorem found_named_eq_zero {ds : List Dentry} (h : Entries m ds) :
    found (named ds w) = 0 ↔ ∀ d ∈ ds, d.name ≠ w := by
  rw [← named_eq_none]
  cases hd : named ds w with
  | none => exact ⟨fun _ => rfl, fun _ => rfl⟩
  | some d =>
    have hin : d.In m := Chain.mem h (List.mem_of_find?_eq_some hd)
    exact ⟨fun hzero => absurd hzero hin.addr_ne, fun hnone => by cases hnone⟩

-- ---------------------------------------------------------------------------
-- Entries below the compile pointer
-- ---------------------------------------------------------------------------

/-- The entry is one of the assembler's, or one that was compiled. -/
def Dentry.Placed (d : Dentry) (c : Cell) : Prop :=
  0x10cb8 ≤ d.addr.toNat ∧ (d.addr.toNat + (7 + d.name.length) ≤ 0x1108c ∨
    74108 ≤ d.addr.toNat ∧ d.addr.toNat + (7 + d.name.length) ≤ c.toNat)

theorem Dentry.Placed.mono {d : Dentry} (h : d.Placed c) (hc : c.toNat ≤ c'.toNat) : d.Placed c' :=
  ⟨h.1, h.2.imp_right fun h => ⟨h.1, h.2.trans hc⟩⟩

theorem Dentry.Placed.bounds {d : Dentry} (h : d.Placed c) (hk : k ∈ d.cells) :
    0x10cb8 ≤ k ∧ (k < 0x1108c ∨ 74108 ≤ k ∧ k < c.toNat) := by
  obtain ⟨hlo, hhi⟩ := hk
  obtain ⟨hlow, h | h⟩ := h <;> omega

/-- The entries that can be found, all of them below the compile pointer. -/
structure Vocabulary (m : Memory 32) (ds : List Dentry) : Prop where
  entries : Entries m ds
  low : 74108 ≤ (cp m).toNat
  placed : ∀ d ∈ ds, d.Placed (cp m)

/-- The entry under construction. -/
structure Pending (m : Memory 32) (d : Dentry) : Prop where
  entry_in : d.In m
  link : load32 m d.addr = load32 m Label.current.storage
  latest : latest m = d.addr
  placed : d.Placed (cp m)

/-- Memory outside of the dictionary: not an entry and not the link to the newest one. -/
def Outside (W : Set Nat) (ds : List Dentry) : Prop :=
  ∀ n ∈ W, n ∉ Label.current.room ∧ ∀ d ∈ ds, n ∉ d.cells

theorem Vocabulary.kept {ds : List Dentry} (h : Vocabulary m ds) (hkeeps : Keeps W m m')
    (hW : Outside W ds) (hcp : (cp m).toNat ≤ (cp m').toNat) : Vocabulary m' ds where
  entries := h.entries.kept hkeeps (fun n hn => (hW n hn).1) fun d hd n hn => (hW n hn).2 d hd
  low := h.low.trans hcp
  placed d hd := (h.placed d hd).mono hcp

theorem Dentry.In.link_kept {d : Dentry} (h : d.In m) (hkeeps : Keeps W m m')
    (hW : ∀ n ∈ W, n ∉ d.cells) : load32 m' d.addr = load32 m d.addr := by
  have hhi := h.span.2.1
  unfold sram_hi at hhi
  exact hkeeps.load32 (by omega) fun n hlo hhi hn => hW n hn ⟨hlo, by omega⟩

theorem Pending.kept (h : Pending m d) (hkeeps : Keeps W m m') (hW : Outside W [d])
    (hlatest : ∀ n ∈ W, n ∉ Label.latest_dentry.room) (hcp : (cp m).toNat ≤ (cp m').toNat) :
    Pending m' d := by
  have hcells : ∀ n ∈ W, n ∉ d.cells := fun n hn => (hW n hn).2 d (List.mem_singleton_self d)
  refine ⟨h.entry_in.kept hkeeps hcells, ?_, ?_, h.placed.mono hcp⟩
  · rw [h.entry_in.link_kept hkeeps hcells, h.link]
    exact (Label.kept hkeeps (by decide) fun n hn => (hW n hn).1).symm
  · rw [← h.latest]
    exact Label.kept hkeeps (by decide) hlatest

/-- The variables of the compiler and what is behind the compile pointer are outside. -/
theorem Vocabulary.outside {ds : List Dentry} (h : Vocabulary m ds)
    (hW : ∀ n ∈ W, n < 0x10cb8 ∨ (70244 ≤ n ∧ n < 70256) ∨ (cp m).toNat ≤ n) : Outside W ds := by
  have hlow := h.low
  intro n hn
  have := hW n hn
  refine ⟨fun hmem => ?_, fun d hd hmem => ?_⟩
  · have := current_room_bounds hmem
    omega
  · have := (h.placed d hd).bounds hmem
    omega

/-- A new entry is pending, and the others can be found as before. -/
theorem Vocabulary.created {ds : List Dentry} (h : Vocabulary m ds) (hroom : Room m (s.length + 15))
    (hm : Created m s m') : Vocabulary m' ds ∧ Pending m' (entry m s) := by
  have hd := entry_at_toNat hroom
  have he := code_at_toNat hroom
  have hfits := hroom.fits
  have hlow := h.low
  have hcp : (cp m').toNat = (code_at m s.length).toNat + 2 := by
    rw [hm.cp]
    exact toNat_add_ofNat (n := 2) (by omega)
  have hcells : ∀ n ∈ created_cells m s.length,
      n < 0x10cb8 ∨ (70244 ≤ n ∧ n < 70256) ∨ (cp m).toNat ≤ n := by
    rintro n ((hn | hn) | hn)
    · have := cp_room_bounds hn
      omega
    · have := latest_room_bounds hn
      omega
    · exact .inr (.inr hn.1)
  have hcurrent : load32 m' Label.current.storage = load32 m Label.current.storage :=
    Label.kept hm.keeps (by decide) fun n hn => (h.outside hcells n hn).1
  refine ⟨h.kept hm.keeps (h.outside hcells) (by omega), hm.entry_in, ?_, hm.latest, ?_, .inr ⟨?_, ?_⟩⟩
  · rw [hcurrent]
    exact hm.link
  · change 0x10cb8 ≤ (entry_at m).toNat
    omega
  · change 74108 ≤ (entry_at m).toNat
    omega
  · change (entry_at m).toNat + (7 + s.length) ≤ _
    omega

/-- The pending entry committed. -/
def committed (m : Memory 32) : Memory 32 := store32 m Label.current.storage (latest m)

theorem committed_keeps : Keeps Label.current.room m (committed m) := store32_keeps _ (by decide)

theorem cp_committed : cp (committed m) = cp m :=
  Label.kept committed_keeps (by decide) fun n hn hmem => by
    have := current_room_bounds hn
    have := cp_room_bounds hmem
    omega

theorem Vocabulary.committed {ds : List Dentry} (h : Vocabulary m ds) (hd : Pending m d) :
    Vocabulary (committed m) (d :: ds) := by
  have hcells : ∀ e ∈ d :: ds, ∀ n ∈ Label.current.room, n ∉ e.cells := by
    intro e he n hn hmem
    have hplaced : e.Placed (cp m) := by
      rcases List.mem_cons.mp he with rfl | he
      · exact hd.placed
      · exact h.placed e he
    have := hplaced.bounds hmem
    have := current_room_bounds hn
    omega
  have hcurrent : load32 (Scp.committed m) Label.current.storage = d.addr :=
    (load32_store32 _ (by decide)).trans hd.latest
  have hd' := hcells d (List.mem_cons_self ..)
  refine ⟨⟨hcurrent, hd.entry_in.kept committed_keeps hd', ?_⟩, ?_, ?_⟩
  · rw [hd.entry_in.link_kept committed_keeps hd', hd.link]
    exact Chain.kept h.entries committed_keeps fun e he => hcells e (List.mem_cons_of_mem _ he)
  · rw [cp_committed]
    exact h.low
  · rw [cp_committed]
    rintro e he
    rcases List.mem_cons.mp he with rfl | he
    · exact hd.placed
    · exact h.placed e he

-- ---------------------------------------------------------------------------
-- Writes outside of the dictionary
-- ---------------------------------------------------------------------------

theorem cp_parsed (h : Keeps parse_cells m m') : cp m' = cp m :=
  Label.kept h (by decide) fun n hn hmem => by
    have := parse_cells_bounds hn
    have := cp_room_bounds hmem
    omega

theorem cp_scanned : cp (scanned m) = cp m := cp_parsed scanned_keeps

theorem Vocabulary.parsed {ds : List Dentry} (h : Vocabulary m ds) (hkeeps : Keeps parse_cells m m') :
    Vocabulary m' ds :=
  h.kept hkeeps (h.outside fun n hn => .inr (.inl (parse_cells_bounds hn))) (by rw [cp_parsed hkeeps])

theorem Vocabulary.scanned {ds : List Dentry} (h : Vocabulary m ds) : Vocabulary (scanned m) ds :=
  h.parsed scanned_keeps

theorem cp_mode_set (m : Memory 32) (l : Label) : cp (mode_set m l) = cp m :=
  Label.kept (mode_set_keeps m l) (by decide) fun n hn hmem => by
    have := eval_xt_room_bounds hn
    have := cp_room_bounds hmem
    omega

/-- The mode is outside of the dictionary. -/
theorem Vocabulary.mode_set {ds : List Dentry} (h : Vocabulary m ds) (l : Label) :
    Vocabulary (mode_set m l) ds :=
  h.kept (mode_set_keeps m l)
    (h.outside fun n hn => .inl (Nat.lt_trans (eval_xt_room_bounds hn).2 (by decide)))
    (by rw [cp_mode_set])

theorem Pending.outside (h : Pending m d) (hcp : 74108 ≤ (cp m).toNat)
    (hW : ∀ n ∈ W, n < 0x10cb8 ∨ (70244 ≤ n ∧ n < 70256) ∨ (cp m).toNat ≤ n) : Outside W [d] := by
  intro n hn
  have := hW n hn
  refine ⟨fun hmem => ?_, fun e he hmem => ?_⟩
  · have := current_room_bounds hmem
    omega
  · obtain rfl := List.mem_singleton.mp he
    have := h.placed.bounds hmem
    omega

theorem Pending.mode_set (h : Pending m d) (hcp : 74108 ≤ (cp m).toNat) (l : Label) :
    Pending (mode_set m l) d := by
  refine h.kept (mode_set_keeps m l)
    (h.outside hcp fun n hn => .inl (Nat.lt_trans (eval_xt_room_bounds hn).2 (by decide)))
    (fun n hn hmem => ?_) (by rw [cp_mode_set])
  have := eval_xt_room_bounds hn
  have := latest_room_bounds hmem
  omega

/-- What is appended is outside of the dictionary. -/
theorem Vocabulary.grown {ds : List Dentry} (h : Vocabulary m ds) (hd : Pending m d)
    (hkeeps : Keeps (growth m n) m m') (hcp : (cp m).toNat ≤ (cp m').toNat) :
    Vocabulary m' ds ∧ Pending m' d := by
  have hW : ∀ k ∈ growth m n, k < 0x10cb8 ∨ (70244 ≤ k ∧ k < 70256) ∨ (cp m).toNat ≤ k := by
    rintro k (hk | hk)
    · have := cp_room_bounds hk
      omega
    · exact .inr (.inr hk.1)
  refine ⟨h.kept hkeeps (h.outside hW) hcp, hd.kept hkeeps (hd.outside h.low hW) ?_ hcp⟩
  have hlow := h.low
  rintro k (hk | ⟨hk, -⟩) hmem
  · have := cp_room_bounds hk
    have := latest_room_bounds hmem
    omega
  · have := latest_room_bounds hmem
    omega

-- ---------------------------------------------------------------------------
-- The words that end a definition
-- ---------------------------------------------------------------------------

section Words

variable [Board] [Sram]

theorem compile_exit_appends (hroom : Room m 2) (heven : (cp m).toNat % 2 = 0) :
    ∃ m', Does .compile_exit m [] [] m' ∧ Appended m (bytes16 Label.exit.offset) m' := by
  obtain ⟨m', hdoes, happended⟩ :=
    compile_xta_appends hroom heven (Label.exit.offset.setWidth 32)
  rw [show (Label.exit.offset.setWidth 32).setWidth 16 = Label.exit.offset by decide] at happended
  refine ⟨m', .of_leads rfl fun ip st rs io => ?_, happended⟩
  calc
    Leads ⟨.rom .compile_exit 0, st, ip :: rs, m, io, none⟩
      ⟨.rom .compile_exit 1, Label.exit.offset.setWidth 32 :: st, ip :: rs, m, io, none⟩ :=
        run_leads (n := 1) rfl
    Leads _ ⟨.rom .compile_exit 2, st, ip :: rs, m', io, none⟩ := hdoes.at rfl
    Leads _ _ := run_leads (n := 1) rfl

theorem commit_latest_dentry_does : Does .commit_latest_dentry m [] [] (committed m) :=
  .of_leads rfl fun ip st rs io =>
    calc
      Leads ⟨.rom .commit_latest_dentry 0, st, ip :: rs, m, io, none⟩
        ⟨.rom .commit_latest_dentry 2, latest m :: st, ip :: rs, m, io, none⟩ :=
          (Label.Var.of_isVar rfl).fetch rfl rfl
      Leads _ ⟨.rom .commit_latest_dentry 4, st, ip :: rs, committed m, io, none⟩ :=
        (Label.Var.of_isVar rfl).set rfl rfl
      Leads _ _ := run_leads (n := 1) rfl

theorem semicolon_does (hroom : Room m 2) (heven : (cp m).toNat % 2 = 0) :
    ∃ m', Appended m (bytes16 Label.exit.offset) m' ∧
      Does .semicolon m [] [] (mode_set (committed m') .interpret_one_word) := by
  obtain ⟨m', hexit, happended⟩ := compile_exit_appends hroom heven
  refine ⟨m', happended, .of_leads rfl fun ip st rs io => ?_⟩
  calc
    Leads ⟨.rom .semicolon 0, st, ip :: rs, m, io, none⟩
      ⟨.rom .semicolon 1, st, ip :: rs, m', io, none⟩ := hexit.at rfl
    Leads _ ⟨.rom .semicolon 2, st, ip :: rs, committed m', io, none⟩ :=
      commit_latest_dentry_does.at rfl
    Leads _ ⟨.rom .semicolon 3, st, ip :: rs, mode_set (committed m') .interpret_one_word, io, none⟩ :=
      state_interpret_does.at rfl
    Leads _ _ := run_leads (n := 1) rfl

/-- Behind the head of a variable's code there is a cell of its own. -/
theorem variable_code_appends (hroom : Room m 6) (heven : (cp m).toNat % 4 = 2) :
    ∃ m', Keeps (growth m 6) m m' ∧ cp m' = cp m + 6 ∧ ∀ st rs io,
      Leads ⟨.rom .«variable» 4, st, rs, m, io, none⟩ ⟨.rom .«variable» 9, st, rs, m', io, none⟩ := by
  have hfits := hroom.fits
  have hlow := hroom.low
  rw [bss_end_toNat] at hlow
  obtain ⟨m₁, hxta, happ₁⟩ := compile_xta_appends (hroom.mono (by omega)) (by omega)
    (Label.dovar.offset.setWidth 32)
  have hcp₁ : (cp m₁).toNat = (cp m).toNat + 2 := happ₁.cp_toNat (hroom.mono (by decide))
  have haligned : cell_align (cp m₁) = cp m₁ := by
    apply BitVec.eq_of_toNat_eq
    rw [cell_align_toNat (by omega)]
    omega
  have hcell := cell_align_cp_does (m := m₁)
  rw [haligned] at hcell
  have hcp₂ : cp (moved m₁ (cp m₁)) = cp m₁ := cp_moved
  have hkeeps₂ : Keeps Label.cp.room m₁ (moved m₁ (cp m₁)) := moved_keeps
  generalize moved m₁ (cp m₁) = m₂ at hcell hcp₂ hkeeps₂
  have hroom₂ : Room m₂ 4 := by
    refine ⟨?_, ?_⟩ <;> rw [hcp₂, hcp₁]
    · rw [bss_end_toNat]
      omega
    · unfold sram_hi
      omega
  obtain ⟨m₃, hzero, happ₃⟩ := compile_cell_appends hroom₂ (by rw [hcp₂]; omega) 0
  refine ⟨m₃, ?_, ?_, fun st rs io => ?_⟩
  · refine ((happ₁.keeps.union hkeeps₂).union happ₃.keeps).mono ?_
    unfold growth
    rw [hcp₂, hcp₁, length_bytes16, length_bytes32]
    rintro n (((hn | ⟨_, _⟩) | hn) | hn | ⟨_, _⟩)
    · exact .inl hn
    · exact .inr ⟨by omega, by omega⟩
    · exact .inl hn
    · exact .inl hn
    · exact .inr ⟨by omega, by omega⟩
  · rw [happ₃.cp, hcp₂, happ₁.cp, length_bytes16, length_bytes32, BitVec.add_assoc]
    rfl
  · calc
      Leads ⟨.rom .«variable» 4, st, rs, m, io, none⟩
        ⟨.rom .«variable» 5, Label.dovar.offset.setWidth 32 :: st, rs, m, io, none⟩ :=
          run_leads (n := 1) rfl
      Leads _ ⟨.rom .«variable» 6, st, rs, m₁, io, none⟩ := hxta.at rfl
      Leads _ ⟨.rom .«variable» 7, st, rs, m₂, io, none⟩ := hcell.at rfl
      Leads _ ⟨.rom .«variable» 8, 0 :: st, rs, m₂, io, none⟩ := run_leads (n := 3) rfl
      Leads _ ⟨.rom .«variable» 9, st, rs, m₃, io, none⟩ := hzero.at rfl

theorem variable_does (h : Scannable m) (hend : ¬ AtEnd m)
    (hroom : Room (scanned m) ((word m).length + 21))
    (hapart : Apart (parse_cells ∪ created_cells (scanned m) (word m).length) (ptr m) (len m).toNat) :
    ∃ m₁ m', Created (scanned m) (word m) m₁ ∧ Keeps (growth m₁ 6) m₁ m' ∧ cp m' = cp m₁ + 6 ∧
      (cp m₁).toNat + 6 ≤ sram_hi ∧ Does .«variable» m [] [] (committed m') := by
  have hroom' : Room (scanned m) ((word m).length + 15) := hroom.mono (by omega)
  obtain ⟨m₁, hcreated, hleads⟩ := new_entry_leads (.inr rfl) h hend hroom' hapart
  have hd := entry_at_toNat hroom'
  have he := code_at_toNat hroom'
  have hfits := hroom.fits
  have hlow := hroom.low
  rw [bss_end_toNat] at hlow
  have hcp : (cp m₁).toNat = (code_at (scanned m) (word m).length).toNat + 2 := by
    rw [hcreated.cp]
    exact toNat_add_ofNat (n := 2) (by omega)
  have hhigh : (cp m₁).toNat + 6 ≤ sram_hi := by
    unfold sram_hi
    omega
  obtain ⟨m', hkeeps, hcp', hcode⟩ := variable_code_appends (m := m₁)
    ⟨by rw [bss_end_toNat]; omega, hhigh⟩ (by omega)
  refine ⟨m₁, m', hcreated, hkeeps, hcp', hhigh, .of_leads rfl fun ip st rs io => ?_⟩
  calc
    Leads ⟨.rom .«variable» 0, st, ip :: rs, m, io, none⟩
      ⟨.rom .«variable» 4, st, ip :: rs, m₁, io, none⟩ := hleads ..
    Leads _ ⟨.rom .«variable» 9, st, ip :: rs, m', io, none⟩ := hcode ..
    Leads _ ⟨.rom .«variable» 10, st, ip :: rs, committed m', io, none⟩ :=
      commit_latest_dentry_does.at rfl
    Leads _ _ := run_leads (n := 1) rfl

-- ---------------------------------------------------------------------------
-- Definitions
-- ---------------------------------------------------------------------------

/-- Nothing of the firmware but its variables, and no stack. -/
def Spared (W : Set Nat) : Prop := ∀ a : Cell, a.toNat ∈ W → fixed a = false ∧ stacked a = false

/-- What definitions on top of the static dictionary lead to: the entries committed so far, and
the one under construction. In between, other words run. They write outside of the entries, the
firmware and the stacks, and what they compile is appended. -/
inductive Defined : Memory 32 → List Dentry → Option Dentry → Prop
  | start (h : Entries m static_dictionary) (hcp : cp m = bss_end) : Defined m static_dictionary none
  | other (h : Defined m ds d) (hkeeps : Keeps W m m') (hspared : Spared W) (hW : Outside W (d.toList ++ ds))
    (hlatest : ∀ n ∈ W, n ∉ Label.latest_dentry.room) (hcp : (cp m).toNat ≤ (cp m').toNat) :
    Defined m' ds d
  | colon (h : Defined m ds none) (hscan : Scannable m) (hend : ¬ AtEnd m)
    (hroom : Room (scanned m) ((word m).length + 15))
    (hapart : Apart (parse_cells ∪ created_cells (scanned m) (word m).length) (ptr m) (len m).toNat)
    (hdoes : Does .colon m [] [] m') : Defined m' ds (some (entry (scanned m) (word m)))
  | semicolon (h : Defined m ds (some d)) (hroom : Room m 2) (heven : (cp m).toNat % 2 = 0)
    (hdoes : Does .semicolon m [] [] m') : Defined m' (d :: ds) none
  | «variable» (h : Defined m ds none) (hscan : Scannable m) (hend : ¬ AtEnd m)
    (hroom : Room (scanned m) ((word m).length + 21))
    (hapart : Apart (parse_cells ∪ created_cells (scanned m) (word m).length) (ptr m) (len m).toNat)
    (hdoes : Does .«variable» m [] [] m') : Defined m' (entry (scanned m) (word m) :: ds) none

/-- Every definition keeps the dictionary in order. -/
theorem Defined.vocabulary (h : Defined m ds d) :
    Vocabulary m ds ∧ ∀ e, d = some e → Pending m e := by
  induction h with
  | start h hcp =>
    refine ⟨⟨h, by rw [hcp, bss_end_toNat], fun d hd => ?_⟩, fun _ he => by cases he⟩
    have hcells := static_cells d hd
    exact ⟨hcells.2, .inl hcells.1⟩
  | @other m ds d W m' h hkeeps _ hW hlatest hcp ih =>
    obtain ⟨hv, hp⟩ := ih
    refine ⟨hv.kept hkeeps (fun n hn => ⟨(hW n hn).1, fun e he => ?_⟩) hcp, ?_⟩
    · exact (hW n hn).2 e (List.mem_append_right _ he)
    · rintro e rfl
      refine (hp e rfl).kept hkeeps (fun n hn => ⟨(hW n hn).1, fun e' he' => ?_⟩) hlatest hcp
      exact (hW n hn).2 e' (List.mem_append_left _ (by simpa using he'))
  | colon h hscan hend hroom hapart hdoes ih =>
    obtain ⟨m₁, hcreated, hcolon⟩ := colon_does hscan hend hroom hapart
    obtain ⟨-, rfl⟩ := hdoes.unique hcolon
    obtain ⟨hv, hp⟩ := ih.1.scanned.created hroom hcreated
    refine ⟨hv.mode_set _, fun e he => ?_⟩
    obtain rfl := Option.some.inj he
    exact hp.mode_set hv.low _
  | semicolon h hroom heven hdoes ih =>
    obtain ⟨m₁, happended, hsemicolon⟩ := semicolon_does hroom heven
    obtain ⟨-, rfl⟩ := hdoes.unique hsemicolon
    have hcp := happended.cp_toNat hroom
    obtain ⟨hv, hp⟩ := ih.1.grown (ih.2 _ rfl) happended.keeps (by omega)
    exact ⟨(hv.committed hp).mode_set _, fun _ he => by cases he⟩
  | «variable» h hscan hend hroom hapart hdoes ih =>
    obtain ⟨m₁, m₂, hcreated, hkeeps, hcp, hhigh, hvariable⟩ := variable_does hscan hend hroom hapart
    obtain ⟨-, rfl⟩ := hdoes.unique hvariable
    obtain ⟨hv, hp⟩ := ih.1.scanned.created (hroom.mono (by omega)) hcreated
    have hfits : (cp m₁).toNat + 6 ≤ 81920 := hhigh
    have hcp' : (cp m₂).toNat = (cp m₁).toNat + 6 := by
      rw [hcp]
      exact toNat_add_ofNat (n := 6) (by omega)
    obtain ⟨hv, hp⟩ := hv.grown hp hkeeps (by omega)
    exact ⟨hv.committed hp, fun _ he => by cases he⟩

-- ---------------------------------------------------------------------------
-- Lookup
-- ---------------------------------------------------------------------------

/-- `dentry_by_name` returns the newest entry with the name, zero if there is none, and a new word
changes that for no other name. -/
structure FindsNames (m : Memory 32) (ds : List Dentry) : Prop where
  newest : ∀ a (n : Cell), Readable a n.toNat →
    Does .dentry_by_name m [n, a] [found (named ds (bytes m a n.toNat))] m
  zero_iff : ∀ w, found (named ds w) = 0 ↔ ∀ d ∈ ds, d.name ≠ w
  others : ∀ d es, ds = d :: es → ∀ w, d.name ≠ w → named ds w = named es w

theorem finds_short_names {ds : List Dentry} (h : Vocabulary m ds)
    (hshort : ∀ d ∈ ds, d.name.length < 256) : FindsNames m ds where
  newest a n ha := by
    rw [← lookup_eq_named hshort]
    exact dentry_by_name_does h.entries n ha
  zero_iff _ := found_named_eq_zero h.entries
  others := by
    rintro d es rfl w hne
    exact named_cons_of_ne hne

/-- A name of 256 characters or more is never found, where it stands in the dictionary already. -/
theorem long_name_lost {ds : List Dentry} (h : Vocabulary m ds) (hd : d ∈ ds)
    (hlong : 256 ≤ d.name.length) : ¬ FindsNames m ds := by
  intro hfinds
  have hin : d.In m := Chain.mem h.entries hd
  have hhi := hin.span.2.1
  unfold sram_hi at hhi
  have hlen : (BitVec.ofNat 32 d.name.length).toNat = d.name.length := by
    rw [BitVec.toNat_ofNat]
    omega
  have hread : Readable (d.addr + 7) (BitVec.ofNat 32 d.name.length).toNat := by
    rw [hlen]
    exact (hin.span.readable.drop 7).mono (by omega)
  have hname : bytes m (d.addr + 7) (BitVec.ofNat 32 d.name.length).toNat = d.name := by
    rw [hlen]
    exact hin.chars
  have hnewest := hfinds.newest _ _ hread
  have hlookup := dentry_by_name_does h.entries _ hread
  rw [hname] at hnewest hlookup
  rw [lookup_long hlong] at hlookup
  have hzero : found (named ds d.name) = 0 := (List.cons.inj (hnewest.unique hlookup).1).1
  exact (hfinds.zero_iff d.name).mp hzero d hd rfl

/-- After any definitions, names are found exactly if all of them fit into a count byte. -/
theorem finds_names_iff (h : Defined m ds d) : FindsNames m ds ↔ ∀ e ∈ ds, e.name.length < 256 := by
  constructor
  · intro hfinds e he
    by_contra hlong
    exact long_name_lost h.vocabulary.1 he (by omega) hfinds
  · exact finds_short_names h.vocabulary.1

end Words

namespace Definitions

local instance : Board := .flat
local instance : Sram := .flat

/-- The text behind a colon. -/
def behind_colon (s : List Byte) : List Byte := 0x20 :: s

/-- The first definition of all, if it has room. -/
theorem exists_defined (hs : s.length ≤ 500) (hne : s ≠ [])
    (hword : word (request (behind_colon s)).mem = s) :
    ∃ m d, d.name = s ∧ Defined m (d :: static_dictionary) none := by
  have hlen : (behind_colon s).length ≤ 1020 := by
    simp only [behind_colon, List.length_cons]
    omega
  have hi := interpretable_request hlen
  have hcp₀ : cp (request (behind_colon s)).mem = bss_end := variable_request hlen (by decide)
  have hcp : (cp (scanned (request (behind_colon s)).mem)).toNat = 74108 := by
    rw [cp_scanned, hcp₀, bss_end_toNat]
  have hend : ¬ AtEnd (request (behind_colon s)).mem := by
    intro hend
    rw [word, show segment _ _ = 0 from hend, List.take_zero] at hword
    exact hne hword.symm
  have hroom : Room (scanned (request (behind_colon s)).mem) ((word (request (behind_colon s)).mem).length + 15) := by
    refine ⟨?_, ?_⟩ <;> rw [hcp]
    · rw [bss_end_toNat]
    · rw [hword]
      unfold sram_hi
      omega
  have hapart : Apart (parse_cells ∪ created_cells (scanned (request (behind_colon s)).mem)
      (word (request (behind_colon s)).mem).length) (ptr (request (behind_colon s)).mem)
      (len (request (behind_colon s)).mem).toNat := by
    have htext : mib_text.toNat = 80900 := by decide
    have hcells {k : Nat} := colon_cells_bounds (k := k) hroom
    rw [hcp, hword] at hcells
    rw [ptr_request, hword, len_request hlen]
    intro i hi hmem
    rw [toNat_add_ofNat (by omega)] at hmem
    obtain hmem | hmem := hmem
    · have := parse_cells_bounds hmem
      omega
    · have := hcells (.inl hmem)
      omega
  obtain ⟨m₁, hcreated, hcolon⟩ := colon_does hi.parsable.scannable hend hroom hapart
  have hcode := code_at_toNat hroom
  have hentry := entry_at_toNat hroom
  rw [hcp] at hentry
  rw [hword] at hcode
  have hcp₁ : (cp (mode_set m₁ .compile_one_word)).toNat =
      (code_at (scanned (request (behind_colon s)).mem) s.length).toNat + 2 := by
    rw [cp_mode_set, hcreated.cp, hword]
    exact toNat_add_ofNat (n := 2) (by omega)
  have hroom₁ : Room (mode_set m₁ .compile_one_word) 2 := by
    refine ⟨?_, ?_⟩ <;> rw [hcp₁]
    · rw [bss_end_toNat]
      omega
    · unfold sram_hi
      omega
  have heven : (cp (mode_set m₁ .compile_one_word)).toNat % 2 = 0 := by
    rw [hcp₁]
    omega
  obtain ⟨m₂, -, hsemicolon⟩ := semicolon_does hroom₁ heven
  exact ⟨_, _, hword, .semicolon (.colon (.start hi.entries hcp₀) hi.parsable.scannable hend hroom hapart hcolon)
    hroom₁ heven hsemicolon⟩

/-- A word `a` is found. -/
theorem short_name_found : ∃ m d, d.name = ascii "a" ∧ Defined m (d :: static_dictionary) none ∧
    FindsNames m (d :: static_dictionary) := by
  have hword : word (request (behind_colon (ascii "a"))).mem = ascii "a" := by
    rw [word, text_request (by decide)]
    decide
  obtain ⟨m, d, hd, hdefined⟩ := exists_defined (by decide) (by decide) hword
  have hstatic : ∀ e ∈ static_dictionary, e.name.length < 256 := by decide +kernel
  refine ⟨m, d, hd, hdefined, (finds_names_iff hdefined).mpr fun e he => ?_⟩
  rcases List.mem_cons.mp he with rfl | he
  · rw [hd]
    decide
  · exact hstatic e he

def long_name : List Byte := List.replicate 256 0x78

/-- A word with a name of 256 characters is not. -/
theorem long_name_not_found : ∃ m d, d.name = long_name ∧ Defined m (d :: static_dictionary) none ∧
    ¬ FindsNames m (d :: static_dictionary) := by
  have hlen : long_name.length = 256 := List.length_replicate ..
  have hword : word (request (behind_colon long_name)).mem = long_name := by
    rw [word, text_request (by decide +kernel)]
    decide +kernel
  obtain ⟨m, d, hd, hdefined⟩ := exists_defined (by omega) (by decide +kernel) hword
  exact ⟨m, d, hd, hdefined, long_name_lost hdefined.vocabulary.1 (List.mem_cons_self ..) (by rw [hd, hlen])⟩

end Definitions

end Allwinner.Scp
