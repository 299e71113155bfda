import Allwinner.Scp.Interpreter

/-!
# The words that make the dictionary grow

Everything that is compiled is appended at the compile pointer. `Appended` says what one
word or a sequence of them appends, and that nothing but the pointer changes besides.
-/

namespace Allwinner.Scp

open Library Memory
open Forth hiding ip ds rs mem io jump one two

/-- The compile pointer. -/
def cp (m : Memory 32) : Cell := load32 m Label.cp.storage

def moved (m : Memory 32) (c : Cell) : Memory 32 := store32 m Label.cp.storage c

/-- From the compile pointer on there is room for `n` bytes. -/
structure Room (m : Memory 32) (n : Nat) : Prop where
  low : bss_end.toNat ≤ (cp m).toNat
  high : (cp m).toNat + n ≤ sram_hi

/-- The bytes a word that compiles `bs` may write. -/
def growth (m : Memory 32) (n : Nat) : Set Nat :=
  Label.cp.room ∪ Set.Ico (cp m).toNat ((cp m).toNat + n)

structure Appended (m : Memory 32) (bs : List Byte) (m' : Memory 32) : Prop where
  cp : cp m' = cp m + BitVec.ofNat 32 bs.length
  bytes : bytes m' (Scp.cp m) bs.length = bs
  keeps : Keeps (growth m bs.length) m m'

theorem cp_moved : cp (moved m c) = c := load32_store32 _ (by decide)

theorem moved_keeps : Keeps Label.cp.room m (moved m c) := store32_keeps _ (by decide)

theorem cp_room_bounds (h : n ∈ Label.cp.room) : 68084 ≤ n ∧ n < 68088 := by
  obtain ⟨hlo, hhi⟩ := h
  rw [show Label.cp.storage.toNat = 68084 by decide] at hlo hhi
  exact ⟨hlo, hhi⟩

theorem bss_end_toNat : bss_end.toNat = 74108 := by decide

namespace Room

theorem mono (h : Room m n) (hk : k ≤ n) : Room m k := ⟨h.low, by have := h.high; omega⟩

theorem fits (h : Room m n) : (cp m).toNat + n ≤ 81920 := h.high

end Room

namespace Appended

/-- Stored at the compile pointer, with the pointer set behind it. -/
theorem of_stored (hroom : Room m bs.length)
    (hkeeps : Keeps (Set.Ico (Scp.cp m).toNat ((Scp.cp m).toNat + bs.length)) m m₁)
    (hbytes : Memory.bytes m₁ (Scp.cp m) bs.length = bs)
    (hc : c = Scp.cp m + BitVec.ofNat 32 bs.length) : Appended m bs (moved m₁ c) := by
  have hlow := hroom.low
  have hhigh := hroom.fits
  rw [bss_end_toNat] at hlow
  refine ⟨by rw [cp_moved, hc], ?_, ?_⟩
  · rw [moved_keeps.bytes (by omega) fun k hlo _ hk => ?_, hbytes]
    have := (cp_room_bounds hk).2
    omega
  · exact (hkeeps.union moved_keeps).mono (Set.union_comm ..).subset

theorem refl : Appended m [] m := ⟨(BitVec.add_zero _).symm, rfl, .refl⟩

theorem cp_toNat (h : Appended m bs m') (hroom : Room m bs.length) :
    (Scp.cp m').toNat = (Scp.cp m).toNat + bs.length := by
  have := hroom.fits
  rw [h.cp, toNat_add_ofNat (by omega)]

theorem room (h : Appended m bs m') (hroom : Room m (bs.length + n)) : Room m' n := by
  have hcp := h.cp_toNat (hroom.mono (Nat.le_add_right ..))
  have hlow := hroom.low
  have hhigh := hroom.high
  exact ⟨by omega, by omega⟩

theorem trans (h : Appended m bs m') (h' : Appended m' bs' m'')
    (hroom : Room m (bs.length + bs'.length)) : Appended m (bs ++ bs') m'' := by
  have hcp := h.cp_toNat (hroom.mono (Nat.le_add_right ..))
  have hlow := hroom.low
  have hhigh := hroom.fits
  rw [bss_end_toNat] at hlow
  refine ⟨?_, ?_, ?_⟩
  · rw [h'.cp, h.cp, List.length_append, BitVec.add_assoc, ← BitVec.ofNat_add]
  · rw [List.length_append, bytes_add, ← h.cp, h'.bytes, h'.keeps.bytes (by omega), h.bytes]
    rintro k hlo hhi (hk | hk)
    · have := (cp_room_bounds hk).2
      omega
    · have := hk.1
      omega
  · refine (h.keeps.union h'.keeps).mono ?_
    rintro n ((hn | ⟨_, _⟩) | (hn | ⟨_, _⟩))
    · exact .inl hn
    · exact .inr ⟨by omega, by rw [List.length_append]; omega⟩
    · exact .inl hn
    · exact .inr ⟨by omega, by rw [List.length_append]; omega⟩

end Appended

/-- The two halves are stored in the order of a cell. -/
theorem bytes_store_halves (ha : a.toNat + 4 ≤ 2 ^ 32) :
    bytes (store_half (store_half m (a + 2) v) a (v >>> 16)) a 4 = bytes32 v := by
  have h2 : (a + 2).toNat = a.toNat + 2 := toNat_add_ofNat (n := 2) (by omega)
  have hlow : (v >>> 16).setWidth 16 = v.extractLsb' 16 16 := by
    apply BitVec.eq_of_toNat_eq
    simp [BitVec.extractLsb'_toNat]
  have hhigh : v.setWidth 16 = v.extractLsb' 0 16 := by
    apply BitVec.eq_of_toNat_eq
    simp [BitVec.extractLsb'_toNat]
  have hkept : bytes (store_half (store_half m (a + 2) v) a (v >>> 16)) (a + 2) 2 =
      bytes (store_half m (a + 2) v) (a + 2) 2 :=
    (store16_keeps _ (by omega)).bytes (by omega) fun k hk _ hmem => by
      have := hmem.2
      omega
  rw [show 4 = 2 + 2 from rfl, bytes_add]
  change _ ++ bytes _ (a + 2) 2 = _
  rw [hkept, store_half, store_half, bytes_store16 (by omega), bytes_store16 (by omega), hlow, hhigh]
  rfl

theorem store_halves_keeps (ha : a.toNat + 4 ≤ 2 ^ 32) : Keeps (Set.Ico a.toNat (a.toNat + 4)) m
    (store_half (store_half m (a + 2) v) a (v >>> 16)) := by
  have h2 : (a + 2).toNat = a.toNat + 2 := toNat_add_ofNat (n := 2) (by omega)
  refine ((store16_keeps _ (by omega)).union (store16_keeps _ (by omega))).mono ?_
  rintro n (⟨_, _⟩ | ⟨_, _⟩) <;> constructor <;> omega

-- ---------------------------------------------------------------------------
-- The layout of a new entry
-- ---------------------------------------------------------------------------

/-- The entry under construction. -/
def latest (m : Memory 32) : Cell := load32 m Label.latest_dentry.storage

/-- Where the next entry goes, and the code of a word with a name of `n` characters. -/
def entry_at (m : Memory 32) : Cell := cell_align (cp m)

def code_at (m : Memory 32) (n : Nat) : Cell := cell_align (entry_at m + BitVec.ofNat 32 (7 + n))

/-- An entry whose name is `s`. -/
def entry (m : Memory 32) (s : List Byte) : Dentry :=
  ⟨entry_at m, (code_at m s.length - start).setWidth 16, s⟩

/-- What `create_dentry` changes. -/
def created_cells (m : Memory 32) (n : Nat) : Set Nat :=
  Label.cp.room ∪ Label.latest_dentry.room ∪ Set.Ico (cp m).toNat ((code_at m n).toNat + 2)

/-- The entry stands in memory, linked to the newest one, and its code starts as a list. -/
structure Created (m : Memory 32) (s : List Byte) (m' : Memory 32) : Prop where
  entry_in : (entry m s).In m'
  link : load32 m' (entry_at m) = load32 m Label.current.storage
  code : load16 m' (code_at m s.length) = Prim.dolist.code
  cp : cp m' = code_at m s.length + 2
  latest : latest m' = entry_at m
  keeps : Keeps (created_cells m s.length) m m'

theorem latest_room_bounds (h : n ∈ Label.latest_dentry.room) : 68108 ≤ n ∧ n < 68112 := by
  obtain ⟨hlo, hhi⟩ := h
  rw [show Label.latest_dentry.storage.toNat = 68108 by decide] at hlo hhi
  exact ⟨hlo, hhi⟩

section Layout

variable {m m₂ m₅ m₈ : Memory 32} {s : List Byte}

theorem entry_at_toNat (h : Room m (n + 15)) : (entry_at m).toNat = ((cp m).toNat + 3) / 4 * 4 := by
  have := h.fits
  exact cell_align_toNat (by omega)

theorem code_at_toNat (h : Room m (n + 15)) :
    (code_at m n).toNat = ((entry_at m).toNat + (7 + n) + 3) / 4 * 4 := by
  have := h.fits
  have hd := entry_at_toNat h
  have hadd : (entry_at m + BitVec.ofNat 32 (7 + n)).toNat = (entry_at m).toNat + (7 + n) :=
    toNat_add_ofNat (by omega)
  rw [code_at, cell_align_toNat (by omega), hadd]

theorem Created.of_steps (hroom : Room m (s.length + 15))
    (h₂ : Keeps (Label.cp.room ∪ Label.latest_dentry.room) m m₂) (hcp : Scp.cp m₂ = entry_at m)
    (hlatest : Scp.latest m₂ = entry_at m)
    (h₅ : Appended m₂ (bytes32 (load32 m Label.current.storage) ++ (bytes16 0 ++
      (BitVec.ofNat 8 s.length :: s))) m₅)
    (h₈ : Appended (store16 (moved m₅ (code_at m s.length)) (entry_at m + 4)
      ((code_at m s.length - start).setWidth 16)) (bytes16 Prim.dolist.code) m₈) : Created m s m₈ := by
  have hd := entry_at_toNat hroom
  have he := code_at_toNat hroom
  have hfits := hroom.fits
  have hlow := hroom.low
  rw [bss_end_toNat] at hlow
  have hd4 : (entry_at m + 4).toNat = (entry_at m).toNat + 4 := toNat_add_ofNat (n := 4) (by omega)
  have hd6 : (entry_at m + 6).toNat = (entry_at m).toNat + 6 := toNat_add_ofNat (n := 6) (by omega)
  have hlen : (bytes32 (load32 m Label.current.storage) ++ (bytes16 0 ++
      (BitVec.ofNat 8 s.length :: s))).length = 4 + (2 + (1 + s.length)) := by
    simp only [bytes32, bytes16, List.length_append, List.length_cons, List.length_nil]
    omega
  have hsplit := h₅.bytes
  rw [hlen, hcp, bytes_add, bytes_add] at hsplit
  obtain ⟨hlink, hsplit⟩ := List.append_inj hsplit rfl
  obtain ⟨-, hname⟩ := List.append_inj hsplit rfl
  have hkeeps₅ := h₅.keeps
  rw [growth, hlen, hcp] at hkeeps₅
  -- from the last appended byte of the entry on
  have hkeeps₇ : Keeps (Label.cp.room ∪ Set.Ico ((entry_at m).toNat + 4) ((entry_at m).toNat + 6)) m₅
      (store16 (moved m₅ (code_at m s.length)) (entry_at m + 4)
        ((code_at m s.length - start).setWidth 16)) := by
    have hstore := moved_keeps.union (store16_keeps (m := moved m₅ (code_at m s.length))
      (a := entry_at m + 4) ((code_at m s.length - start).setWidth 16) (by omega))
    rwa [hd4] at hstore
  have hxta := load16_store16 (m := moved m₅ (code_at m s.length)) (a := entry_at m + 4)
    ((code_at m s.length - start).setWidth 16) (by omega)
  have hcp₇ : Scp.cp (store16 (moved m₅ (code_at m s.length)) (entry_at m + 4)
      ((code_at m s.length - start).setWidth 16)) = code_at m s.length :=
    (Label.kept (store16_keeps _ (by omega)) (by decide) fun n hn hmem => by
      have := (cp_room_bounds hmem).2
      have := hn.1
      omega).trans cp_moved
  generalize store16 (moved m₅ (code_at m s.length)) (entry_at m + 4)
    ((code_at m s.length - start).setWidth 16) = m₇ at *
  have hkeeps₈ : Keeps (Label.cp.room ∪ Set.Ico (code_at m s.length).toNat
      ((code_at m s.length).toNat + 2)) m₇ m₈ := by
    have hgrown := h₈.keeps
    rwa [growth, hcp₇] at hgrown
  have hkeeps : Keeps (Label.cp.room ∪ Set.Ico ((entry_at m).toNat + 4) ((entry_at m).toNat + 6) ∪
      Set.Ico (code_at m s.length).toNat ((code_at m s.length).toNat + 2)) m₅ m₈ := by
    refine (hkeeps₇.union hkeeps₈).mono ?_
    rintro n (hn | hn | hn)
    · exact .inl hn
    · exact .inl (.inl hn)
    · exact .inr hn
  have hxta₈ : load16 m₈ (entry_at m + 4) = (code_at m s.length - start).setWidth 16 := by
    rw [hkeeps₈.load16 (by omega), hxta]
    rintro n hlo hhi (hn | ⟨hn, -⟩)
    · have := (cp_room_bounds hn).2
      omega
    · omega
  have hlink₈ : load32 m₈ (entry_at m) = load32 m Label.current.storage := by
    rw [hkeeps.load32 (by omega), load32_of_bytes hlink]
    rintro n hlo hhi ((hn | ⟨hn, -⟩) | ⟨hn, -⟩)
    · have := (cp_room_bounds hn).2
      omega
    all_goals omega
  have hname₈ : bytes m₈ (entry_at m + 6) (1 + s.length) = BitVec.ofNat 8 s.length :: s := by
    rw [hkeeps.bytes (by omega)]
    · rw [← hname, BitVec.add_assoc]
      rfl
    · rintro n hlo hhi ((hn | ⟨-, hn⟩) | ⟨hn, -⟩)
      · have := (cp_room_bounds hn).2
        omega
      all_goals omega
  refine ⟨⟨?_, ?_, hxta₈, ?_, ?_⟩, hlink₈, ?_, ?_, ?_, ?_⟩
  · refine ⟨?_, .behind ?_ ?_⟩
    · change (entry_at m).toNat % 4 = 0
      omega
    · change 73852 ≤ (entry_at m).toNat
      omega
    · change (entry_at m).toNat + 4 ≤ sram_hi
      unfold sram_hi
      omega
  · refine .behind ?_ ?_
    · change 73852 ≤ (entry_at m).toNat
      omega
    · change (entry_at m).toNat + (7 + s.length) ≤ sram_hi
      unfold sram_hi
      omega
  · exact (List.cons.inj (Nat.add_comm 1 _ ▸ hname₈)).1
  · have hchars := (List.cons.inj (Nat.add_comm 1 _ ▸ hname₈)).2
    rwa [BitVec.add_assoc] at hchars
  · have hcode := h₈.bytes
    rw [hcp₇] at hcode
    exact load16_of_bytes hcode
  · rw [h₈.cp, hcp₇]
    rfl
  · rw [← hlatest]
    refine (Label.kept hkeeps (by decide) ?_).trans (Label.kept hkeeps₅ (by decide) ?_)
    · rintro n ((hn | ⟨hn, -⟩) | ⟨hn, -⟩) hmem
      · have := (cp_room_bounds hn).2
        have := (latest_room_bounds hmem).1
        omega
      all_goals
        have := (latest_room_bounds hmem).2
        omega
    · rintro n (hn | ⟨hn, -⟩) hmem
      · have := (cp_room_bounds hn).2
        have := (latest_room_bounds hmem).1
        omega
      · have := (latest_room_bounds hmem).2
        omega
  · refine ((h₂.union hkeeps₅).union hkeeps).mono ?_
    rintro n ((hn | hn | ⟨hlo, hhi⟩) | (hn | ⟨hlo, hhi⟩) | ⟨hlo, hhi⟩)
    · exact .inl hn
    · exact .inl (.inl hn)
    · exact .inr ⟨by omega, by omega⟩
    · exact .inl (.inl hn)
    · exact .inr ⟨by omega, by omega⟩
    · exact .inr ⟨by omega, by omega⟩

end Layout

section Words

variable [Board]

-- ---------------------------------------------------------------------------
-- The compile pointer
-- ---------------------------------------------------------------------------

theorem xta_aligned_store_does (hlow : store_access 2 (a + 2) = .ram) (hhigh : store_access 2 a = .ram) :
    Does .xta_aligned_store m [a, v] [] (store_half (store_half m (a + 2) v) a (v >>> 16)) :=
  .prim rfl fun _ _ _ _ => by
    simp only [Prim.turn, store_halves, Forth.two, List.cons_append, List.nil_append, hlow, hhigh]

theorem incr_cell_does (h : store_access 4 a = .ram) :
    Does .incr_cell m [a] [] (store32 m a (load32 m a + 4)) :=
  .of_leads rfl fun ip st rs io =>
    calc
      Leads ⟨.rom .incr_cell 0, a :: st, ip :: rs, m, io, none⟩
        ⟨.rom .incr_cell 1, a :: a :: st, ip :: rs, m, io, none⟩ := run_leads (n := 1) rfl
      Leads _ ⟨.rom .incr_cell 2, load32 m a :: a :: st, ip :: rs, m, io, none⟩ :=
        (at_does (access_of_store h)).at rfl
      Leads _ ⟨.rom .incr_cell 5, a :: (load32 m a + 4) :: st, ip :: rs, m, io, none⟩ :=
        run_leads (n := 8) rfl
      Leads _ ⟨.rom .incr_cell 6, st, ip :: rs, store32 m a (load32 m a + 4), io, none⟩ :=
        (store_does h).at rfl
      Leads _ _ := run_leads (n := 1) rfl

theorem incr_one_does (h : store_access 4 a = .ram) :
    Does .incr_one m [a] [] (store32 m a (load32 m a + 1)) :=
  .of_leads rfl fun ip st rs io =>
    calc
      Leads ⟨.rom .incr_one 0, a :: st, ip :: rs, m, io, none⟩
        ⟨.rom .incr_one 1, a :: a :: st, ip :: rs, m, io, none⟩ := run_leads (n := 1) rfl
      Leads _ ⟨.rom .incr_one 2, load32 m a :: a :: st, ip :: rs, m, io, none⟩ :=
        (at_does (access_of_store h)).at rfl
      Leads _ ⟨.rom .incr_one 4, a :: (load32 m a + 1) :: st, ip :: rs, m, io, none⟩ :=
        run_leads (n := 10) rfl
      Leads _ ⟨.rom .incr_one 5, st, ip :: rs, store32 m a (load32 m a + 1), io, none⟩ :=
        (store_does h).at rfl
      Leads _ _ := run_leads (n := 1) rfl

variable [Sram]

theorem advance_cp_does (n : Cell) : Does .advance_cp m [n] [] (moved m (n + cp m)) :=
  .of_leads rfl fun ip st rs io =>
    calc
      Leads ⟨.rom .advance_cp 0, n :: st, ip :: rs, m, io, none⟩
        ⟨.rom .advance_cp 2, cp m :: n :: st, ip :: rs, m, io, none⟩ :=
          (Label.Var.of_isVar rfl).fetch rfl rfl
      Leads _ ⟨.rom .advance_cp 3, (n + cp m) :: st, ip :: rs, m, io, none⟩ := run_leads (n := 4) rfl
      Leads _ ⟨.rom .advance_cp 5, st, ip :: rs, moved m (n + cp m), io, none⟩ :=
        (Label.Var.of_isVar rfl).set rfl rfl
      Leads _ _ := run_leads (n := 1) rfl

theorem cell_align_cp_does : Does .cell_align_cp m [] [] (moved m (cell_align (cp m))) :=
  .of_leads rfl fun ip st rs io =>
    calc
      Leads ⟨.rom .cell_align_cp 0, st, ip :: rs, m, io, none⟩
        ⟨.rom .cell_align_cp 2, cp m :: st, ip :: rs, m, io, none⟩ :=
          (Label.Var.of_isVar rfl).fetch rfl rfl
      Leads _ ⟨.rom .cell_align_cp 3, cell_align (cp m) :: st, ip :: rs, m, io, none⟩ :=
        run_leads (n := 6) rfl
      Leads _ ⟨.rom .cell_align_cp 5, st, ip :: rs, moved m (cell_align (cp m)), io, none⟩ :=
        (Label.Var.of_isVar rfl).set rfl rfl
      Leads _ _ := run_leads (n := 1) rfl

-- ---------------------------------------------------------------------------
-- Half words, cells and bytes
-- ---------------------------------------------------------------------------

theorem Room.half (h : Room m n) (heven : (cp m).toNat % 2 = 0) (hk : k + 2 ≤ n) (hk' : k % 2 = 0) :
    store_access 2 (cp m + BitVec.ofNat 32 k) = .ram := by
  have hlow := h.low
  have hhigh := h.high
  have hfits := h.fits
  rw [bss_end_toNat] at hlow
  have hadd : (cp m + BitVec.ofNat 32 k).toNat = (cp m).toNat + k := toNat_add_ofNat (by omega)
  exact store_access_behind (n := 2) (by omega) (by decide) (by omega) (by omega)

theorem compile_xta_appends (hroom : Room m 2) (heven : (cp m).toNat % 2 = 0) (x : Cell) :
    ∃ m', Does .compile_xta m [x] [] m' ∧ Appended m (bytes16 (x.setWidth 16)) m' := by
  have hfits := hroom.fits
  have haccess : store_access 2 (cp m) = .ram := by
    simpa using hroom.half heven (k := 0) (by omega) rfl
  have hkeeps := store16_keeps (m := m) (a := cp m) (x.setWidth 16) (by omega)
  have hlow := hroom.low
  rw [bss_end_toNat] at hlow
  have hcp : cp (store16 m (cp m) (x.setWidth 16)) = cp m :=
    Label.kept hkeeps (by decide) fun n hn hmem => by
      have := (cp_room_bounds hmem).2
      have := hn.1
      omega
  refine ⟨moved (store16 m (cp m) (x.setWidth 16)) (2 + cp m), .of_leads rfl fun ip st rs io => ?_,
    .of_stored hroom hkeeps (bytes_store16 (by omega)) (BitVec.add_comm ..)⟩
  calc
    Leads ⟨.rom .compile_xta 0, x :: st, ip :: rs, m, io, none⟩
      ⟨.rom .compile_xta 2, cp m :: x :: st, ip :: rs, m, io, none⟩ :=
        (Label.Var.of_isVar rfl).fetch rfl rfl
    Leads _ ⟨.rom .compile_xta 3, st, ip :: rs, store16 m (cp m) (x.setWidth 16), io, none⟩ :=
      (xtastore_does haccess).at rfl
    Leads _ ⟨.rom .compile_xta 4, 2 :: st, ip :: rs, store16 m (cp m) (x.setWidth 16), io, none⟩ :=
      run_leads (n := 3) rfl
    Leads _ ⟨.rom .compile_xta 5, st, ip :: rs, moved _ (2 + cp m), io, none⟩ := by
      have hdoes := advance_cp_does (m := store16 m (cp m) (x.setWidth 16)) 2
      rw [hcp] at hdoes
      exact hdoes.at rfl
    Leads _ _ := run_leads (n := 1) rfl

theorem compile_cell_appends (hroom : Room m 4) (heven : (cp m).toNat % 2 = 0) (v : Cell) :
    ∃ m', Does .compile_cell m [v] [] m' ∧ Appended m (bytes32 v) m' := by
  have hfits := hroom.fits
  have hhigh : store_access 2 (cp m) = .ram := by simpa using hroom.half heven (k := 0) (by omega) rfl
  have hlow : store_access 2 (cp m + 2) = .ram := hroom.half heven (k := 2) (by omega) rfl
  have hkeeps := store_halves_keeps (m := m) (a := cp m) (v := v) (by omega)
  have hbytes := bytes_store_halves (m := m) (a := cp m) (v := v) (by omega)
  have hstore := xta_aligned_store_does (m := m) (v := v) hlow hhigh
  have hstart := hroom.low
  rw [bss_end_toNat] at hstart
  generalize store_half (store_half m (cp m + 2) v) (cp m) (v >>> 16) = m₁ at hkeeps hbytes hstore
  have hcp : cp m₁ = cp m := Label.kept hkeeps (by decide) fun n hn hmem => by
    have := (cp_room_bounds hmem).2
    have := hn.1
    omega
  refine ⟨moved m₁ (cp m + 4), .of_leads rfl fun ip st rs io => ?_,
    .of_stored hroom hkeeps hbytes rfl⟩
  calc
    Leads ⟨.rom .compile_cell 0, v :: st, ip :: rs, m, io, none⟩
      ⟨.rom .compile_cell 2, cp m :: v :: st, ip :: rs, m, io, none⟩ :=
        (Label.Var.of_isVar rfl).fetch rfl rfl
    Leads _ ⟨.rom .compile_cell 3, st, ip :: rs, m₁, io, none⟩ := hstore.at rfl
    Leads _ ⟨.rom .compile_cell 4, Label.cp.storage :: st, ip :: rs, m₁, io, none⟩ :=
      (Label.Var.of_isVar (l := .cp) rfl).does.at rfl
    Leads _ ⟨.rom .compile_cell 5, st, ip :: rs, moved m₁ (cp m + 4), io, none⟩ := by
      rw [← hcp]
      exact (incr_cell_does (Label.Var.of_isVar (l := .cp) rfl).ram).at rfl
    Leads _ _ := run_leads (n := 1) rfl

theorem compile_byte_appends (hroom : Room m 1) (v : Cell) :
    ∃ m', Does .compile_byte m [v] [] m' ∧ Appended m [v.setWidth 8] m' := by
  have hlow := hroom.low
  have hhigh := hroom.high
  rw [bss_end_toNat] at hlow
  have hram := (Writable.behind (by omega) hhigh).head (by decide)
  have hkeeps := store8_keeps (m := m) (a := cp m) (v.setWidth 8)
  have hbytes : bytes (store8 m (cp m) (v.setWidth 8)) (cp m) 1 = [v.setWidth 8] := bytes_store8
  have hstore : Does .cstore m [cp m, v] [] (store8 m (cp m) (v.setWidth 8)) := cstore_does hram
  generalize store8 m (cp m) (v.setWidth 8) = m₁ at hkeeps hbytes hstore
  have hcp : cp m₁ = cp m := Label.kept hkeeps (by decide) fun n hn hmem => by
    have := (cp_room_bounds hmem).2
    have := hn.1
    omega
  refine ⟨moved m₁ (cp m + 1), .of_leads rfl fun ip st rs io => ?_,
    .of_stored hroom hkeeps hbytes rfl⟩
  calc
    Leads ⟨.rom .compile_byte 0, v :: st, ip :: rs, m, io, none⟩
      ⟨.rom .compile_byte 2, cp m :: v :: st, ip :: rs, m, io, none⟩ :=
        (Label.Var.of_isVar rfl).fetch rfl rfl
    Leads _ ⟨.rom .compile_byte 3, st, ip :: rs, m₁, io, none⟩ := hstore.at rfl
    Leads _ ⟨.rom .compile_byte 4, Label.cp.storage :: st, ip :: rs, m₁, io, none⟩ :=
      (Label.Var.of_isVar (l := .cp) rfl).does.at rfl
    Leads _ ⟨.rom .compile_byte 5, st, ip :: rs, moved m₁ (cp m + 1), io, none⟩ := by
      rw [← hcp]
      exact (incr_one_does (Label.Var.of_isVar (l := .cp) rfl).ram).at rfl
    Leads _ _ := run_leads (n := 1) rfl

-- ---------------------------------------------------------------------------
-- Dictionary entries
-- ---------------------------------------------------------------------------

theorem Room.writable (h : Room m n) : Writable (cp m) n := by
  have hlow := h.low
  rw [bss_end_toNat] at hlow
  exact .behind (by omega) h.high

theorem compile_string_appends (n : Cell) (hroom : Room m (1 + n.toNat)) (ha : Readable a n.toNat)
    (hapart : Apart (growth m (1 + n.toNat)) a n.toNat) : ∃ m', Does .compile_string m [n, a] [] m' ∧
      Appended m (n.setWidth 8 :: bytes m a n.toNat) m' := by
  obtain ⟨m₁, hcount, happended⟩ := compile_byte_appends (hroom.mono (by omega)) n
  have hcp : (cp m₁).toNat = (cp m).toNat + 1 := happended.cp_toNat (hroom.mono (by simp))
  have hroom' : Room m₁ n.toNat := happended.room hroom
  have hfits := hroom'.fits
  have hlow := hroom'.low
  rw [bss_end_toNat] at hlow
  have hsource : bytes m₁ a n.toNat = bytes m a n.toNat := by
    refine happended.keeps.bytes_apart fun i hi hmem => hapart i hi ?_
    obtain hmem | hmem := hmem
    · exact .inl hmem
    · exact .inr ⟨hmem.1, by have := hmem.2; simp only [List.length_cons, List.length_nil] at this; omega⟩
  have hcopy := cmove_does (m := m₁) n ha hroom'.writable
  rw [copied_eq (by omega) fun i hi hmem => hapart i hi (.inr ⟨?_, ?_⟩), hsource] at hcopy
  rotate_left
  · have := hmem.1
    omega
  · have := hmem.2
    omega
  have hlen : (bytes m a n.toNat).length = n.toNat := length_bytes
  have hkeeps : Keeps _ m₁ (storeBytes m₁ (cp m₁) (bytes m a n.toNat)) :=
    storeBytes_keeps (by omega)
  have hbytes : bytes (storeBytes m₁ (cp m₁) (bytes m a n.toNat)) (cp m₁) _ = bytes m a n.toNat :=
    bytes_storeBytes (by omega)
  generalize storeBytes m₁ (cp m₁) (bytes m a n.toNat) = m₂ at hcopy hkeeps hbytes
  have hcp₂ : cp m₂ = cp m₁ := Label.kept hkeeps (by decide) fun k hk hmem => by
    have := (cp_room_bounds hmem).2
    have := hk.1
    omega
  have hstring : Appended m₁ (bytes m a n.toNat) (moved m₂ (n + cp m₁)) := by
    refine .of_stored (by rwa [hlen]) hkeeps hbytes ?_
    rw [hlen, BitVec.ofNat_toNat, BitVec.setWidth_eq, BitVec.add_comm]
  refine ⟨_, .of_leads rfl fun ip st rs io => ?_,
    happended.trans hstring (by rwa [hlen])⟩
  calc
    Leads ⟨.rom .compile_string 0, n :: a :: st, ip :: rs, m, io, none⟩
      ⟨.rom .compile_string 1, n :: n :: a :: st, ip :: rs, m, io, none⟩ := run_leads (n := 1) rfl
    Leads _ ⟨.rom .compile_string 2, n :: a :: st, ip :: rs, m₁, io, none⟩ := hcount.at rfl
    Leads _ ⟨.rom .compile_string 3, a :: st, .ram n :: ip :: rs, m₁, io, none⟩ :=
      run_leads (n := 1) rfl
    Leads _ ⟨.rom .compile_string 5, cp m₁ :: a :: st, .ram n :: ip :: rs, m₁, io, none⟩ :=
      (Label.Var.of_isVar rfl).fetch rfl rfl
    Leads _ ⟨.rom .compile_string 6, n :: cp m₁ :: a :: st, .ram n :: ip :: rs, m₁, io, none⟩ :=
      run_leads (n := 1) rfl
    Leads _ ⟨.rom .compile_string 7, st, .ram n :: ip :: rs, m₂, io, none⟩ := hcopy.at rfl
    Leads _ ⟨.rom .compile_string 8, n :: st, ip :: rs, m₂, io, none⟩ := run_leads (n := 1) rfl
    Leads _ ⟨.rom .compile_string 9, st, ip :: rs, moved m₂ (n + cp m₁), io, none⟩ := by
      rw [← hcp₂]
      exact (advance_cp_does n).at rfl
    Leads _ _ := run_leads (n := 1) rfl

theorem here_does : Does .here m [] [cp m - start] m :=
  .of_leads rfl fun ip st rs io =>
    calc
      Leads ⟨.rom .here 0, st, ip :: rs, m, io, none⟩
        ⟨.rom .here 2, cp m :: st, ip :: rs, m, io, none⟩ := (Label.Var.of_isVar rfl).fetch rfl rfl
      Leads _ ⟨.rom .here 3, start :: cp m :: st, ip :: rs, m, io, none⟩ := run_leads (n := 3) rfl
      Leads _ ⟨.rom .here 4, (cp m - start) :: st, ip :: rs, m, io, none⟩ := sub_does.at rfl
      Leads _ _ := run_leads (n := 1) rfl

theorem update_latest_dentry_xta_does (h : store_access 2 (latest m + 4) = .ram) :
    Does .update_latest_dentry_xta m [x] [] (store16 m (latest m + 4) (x.setWidth 16)) :=
  .of_leads rfl fun ip st rs io =>
    calc
      Leads ⟨.rom .update_latest_dentry_xta 0, x :: st, ip :: rs, m, io, none⟩
        ⟨.rom .update_latest_dentry_xta 2, latest m :: x :: st, ip :: rs, m, io, none⟩ :=
          (Label.Var.of_isVar rfl).fetch rfl rfl
      Leads _ ⟨.rom .update_latest_dentry_xta 4, (latest m + 4) :: x :: st, ip :: rs, m, io, none⟩ :=
        run_leads (n := 7) rfl
      Leads _ ⟨.rom .update_latest_dentry_xta 5, st, ip :: rs, _, io, none⟩ := (xtastore_does h).at rfl
      Leads _ _ := run_leads (n := 1) rfl

/-- The fields of a new entry up to its name. -/
theorem create_dentry_fields (n : Cell) (hroom : Room m (n.toNat + 15)) (ha : Readable a n.toNat)
    (hapart : Apart (created_cells m n.toNat) a n.toNat) : ∃ m₂ m₅,
      Keeps (Label.cp.room ∪ Label.latest_dentry.room) m m₂ ∧ cp m₂ = entry_at m ∧
      latest m₂ = entry_at m ∧
      Appended m₂ (bytes32 (load32 m Label.current.storage) ++ (bytes16 0 ++
        (BitVec.ofNat 8 n.toNat :: bytes m a n.toNat))) m₅ ∧
      ∀ st rs io, Leads ⟨.rom .create_dentry 0, n :: a :: st, rs, m, io, none⟩
        ⟨.rom .create_dentry 11, st, rs, m₅, io, none⟩ := by
  have hd := entry_at_toNat hroom
  have he := code_at_toNat hroom
  have hfits := hroom.fits
  have hlow := hroom.low
  obtain ⟨m₁, hm₁⟩ : ∃ m₁, m₁ = moved m (entry_at m) := ⟨_, rfl⟩
  obtain ⟨m₂, hm₂⟩ : ∃ m₂, m₂ = store32 m₁ Label.latest_dentry.storage (entry_at m) := ⟨_, rfl⟩
  have hkeeps₂ : Keeps (Label.cp.room ∪ Label.latest_dentry.room) m m₂ := by
    rw [hm₂, hm₁]
    exact moved_keeps.union (store32_keeps _ (by decide))
  have hcp₁ : cp m₁ = entry_at m := by rw [hm₁, cp_moved]
  have hcp₂ : cp m₂ = entry_at m := by
    rw [← hcp₁, hm₂]
    refine Label.kept (store32_keeps _ (by decide)) (by decide) fun k hk hmem => ?_
    have := (latest_room_bounds hk).1
    have := (cp_room_bounds hmem).2
    omega
  have hlatest : latest m₂ = entry_at m := by rw [hm₂]; exact load32_store32 _ (by decide)
  have hcurrent : load32 m₂ Label.current.storage = load32 m Label.current.storage := by
    refine Label.kept hkeeps₂ (by decide) fun k hk hmem => ?_
    have hhi := hmem.1
    rw [show Label.current.storage.toNat = 69788 by decide] at hhi
    obtain hk | hk := hk
    · have := (cp_room_bounds hk).2
      omega
    · have := (latest_room_bounds hk).2
      omega
  have hroom₂ : Room m₂ (4 + (2 + (1 + n.toNat))) := by
    refine ⟨?_, ?_⟩ <;> rw [hcp₂]
    · omega
    · unfold sram_hi
      omega
  obtain ⟨m₃, hlink, happ₃⟩ := compile_cell_appends (m := m₂) (hroom₂.mono (by omega))
    (by rw [hcp₂]; omega) (load32 m Label.current.storage)
  have hroom₃ : Room m₃ (2 + (1 + n.toNat)) := happ₃.room hroom₂
  have hcp₃ := happ₃.cp_toNat (hroom₂.mono (Nat.le_add_right ..))
  obtain ⟨m₄, hxta, happ₄⟩ := compile_xta_appends (m := m₃) (hroom₃.mono (by omega))
    (by rw [hcp₃, hcp₂, length_bytes32]; omega) 0
  have hroom₄ : Room m₄ (1 + n.toNat) := happ₄.room hroom₃
  have happ₄' := happ₃.trans happ₄ (hroom₂.mono (by rw [length_bytes32, length_bytes16]; omega))
  have hkeeps₄ : Keeps (created_cells m n.toNat) m m₄ := by
    refine (hkeeps₂.union happ₄'.keeps).mono ?_
    rintro k (hk | hk | hk)
    · exact .inl hk
    · exact .inl (.inl hk)
    · rw [hcp₂] at hk
      have hhi : k < (entry_at m).toNat + 6 := hk.2
      exact .inr ⟨by have := hk.1; omega, by omega⟩
  have hcp₄ := happ₄'.cp_toNat
    (hroom₂.mono (by rw [List.length_append, length_bytes32, length_bytes16]; omega))
  rw [hcp₂, List.length_append, length_bytes32, length_bytes16] at hcp₄
  obtain ⟨m₅, hname, happ₅⟩ := compile_string_appends (m := m₄) n hroom₄ ha (by
    rintro k hk (hmem | ⟨hlo, hhi⟩)
    · exact hapart k hk (.inl (.inl hmem))
    · exact hapart k hk (.inr ⟨by omega, by omega⟩))
  have hsource : bytes m₄ a n.toNat = bytes m a n.toNat := hkeeps₄.bytes_apart hapart
  have happ := happ₄'.trans happ₅ (hroom₂.mono (by
    rw [List.length_append, length_bytes32, length_bytes16, List.length_cons, length_bytes]
    omega))
  rw [hsource, List.append_assoc, ← BitVec.ofNat_toNat] at happ
  refine ⟨m₂, m₅, hkeeps₂, hcp₂, hlatest, happ, fun st rs io => ?_⟩
  calc
    Leads ⟨.rom .create_dentry 0, n :: a :: st, rs, m, io, none⟩
      ⟨.rom .create_dentry 1, n :: a :: st, rs, m₁, io, none⟩ := by
        rw [hm₁]
        exact cell_align_cp_does.at rfl
    Leads _ ⟨.rom .create_dentry 3, entry_at m :: n :: a :: st, rs, m₁, io, none⟩ := by
      rw [← hcp₁]
      exact (Label.Var.of_isVar rfl).fetch rfl rfl
    Leads _ ⟨.rom .create_dentry 5, n :: a :: st, rs, m₂, io, none⟩ := by
      rw [hm₂]
      exact (Label.Var.of_isVar rfl).set rfl rfl
    Leads _ ⟨.rom .create_dentry 7, load32 m Label.current.storage :: n :: a :: st, rs, m₂, io, none⟩ := by
      rw [← hcurrent]
      exact (Label.Var.of_isVar rfl).fetch rfl rfl
    Leads _ ⟨.rom .create_dentry 8, n :: a :: st, rs, m₃, io, none⟩ := hlink.at rfl
    Leads _ ⟨.rom .create_dentry 9, 0 :: n :: a :: st, rs, m₃, io, none⟩ := run_leads (n := 3) rfl
    Leads _ ⟨.rom .create_dentry 10, n :: a :: st, rs, m₄, io, none⟩ := hxta.at rfl
    Leads _ _ := hname.at rfl

theorem create_dentry_does (n : Cell) (hroom : Room m (n.toNat + 15)) (ha : Readable a n.toNat)
    (hapart : Apart (created_cells m n.toNat) a n.toNat) :
    ∃ m', Does .create_dentry m [n, a] [] m' ∧ Created m (bytes m a n.toNat) m' := by
  have hd := entry_at_toNat hroom
  have he := code_at_toNat hroom
  have hfits := hroom.fits
  have hlow := hroom.low
  rw [bss_end_toNat] at hlow
  obtain ⟨m₂, m₅, hkeeps₂, hcp₂, hlatest, happ, hfields⟩ := create_dentry_fields n hroom ha hapart
  have hcp₅ : cell_align (cp m₅) = code_at m n.toNat := by
    rw [happ.cp, hcp₂, code_at]
    simp only [bytes32, bytes16, List.length_append, List.length_cons, List.length_nil, length_bytes]
    congr 3
    omega
  obtain ⟨m₆, hm₆⟩ : ∃ m₆, m₆ = moved m₅ (code_at m n.toNat) := ⟨_, rfl⟩
  have hcp₆ : cp m₆ = code_at m n.toNat := by rw [hm₆, cp_moved]
  have hlatest₆ : latest m₆ = entry_at m := by
    rw [← hlatest, hm₆]
    refine (Label.kept moved_keeps (by decide) ?_).trans (Label.kept happ.keeps (by decide) ?_)
    · intro k hk hmem
      have := (cp_room_bounds hk).2
      have := (latest_room_bounds hmem).1
      omega
    · rintro k (hk | ⟨hk, -⟩) hmem
      · have := (cp_room_bounds hk).2
        have := (latest_room_bounds hmem).1
        omega
      · have := (latest_room_bounds hmem).2
        rw [hcp₂] at hk
        omega
  have hd4 : (entry_at m + 4).toNat = (entry_at m).toNat + 4 := toNat_add_ofNat (n := 4) (by omega)
  have haccess : store_access 2 (latest m₆ + 4) = .ram := by
    rw [hlatest₆]
    exact store_access_behind (n := 2) (by omega) (by decide) (by omega) (by unfold sram_hi; omega)
  obtain ⟨m₇, hm₇⟩ : ∃ m₇, m₇ = store16 m₆ (entry_at m + 4) ((code_at m n.toNat - start).setWidth 16) :=
    ⟨_, rfl⟩
  have hupdate : Does .update_latest_dentry_xta m₆ [code_at m n.toNat - start] [] m₇ := by
    have hdoes := update_latest_dentry_xta_does (x := code_at m n.toNat - start) haccess
    rwa [hlatest₆, ← hm₇] at hdoes
  have hcp₇ : cp m₇ = code_at m n.toNat := by
    rw [← hcp₆, hm₇]
    refine Label.kept (store16_keeps _ (by omega)) (by decide) fun k hk hmem => ?_
    have := (cp_room_bounds hmem).2
    have := hk.1
    omega
  obtain ⟨m₈, hcode, happ₈⟩ := compile_xta_appends (m := m₇)
    (by
      refine ⟨?_, ?_⟩ <;> rw [hcp₇]
      · rw [bss_end_toNat]
        omega
      · unfold sram_hi
        omega)
    (by rw [hcp₇]; omega) 0x12c
  refine ⟨m₈, .of_leads rfl fun ip st rs io => ?_, ?_⟩
  · calc
      Leads ⟨.rom .create_dentry 0, n :: a :: st, ip :: rs, m, io, none⟩
        ⟨.rom .create_dentry 11, st, ip :: rs, m₅, io, none⟩ := hfields ..
      Leads _ ⟨.rom .create_dentry 12, st, ip :: rs, m₆, io, none⟩ := by
        rw [hm₆, ← hcp₅]
        exact cell_align_cp_does.at rfl
      Leads _ ⟨.rom .create_dentry 13, (code_at m n.toNat - start) :: st, ip :: rs, m₆, io, none⟩ := by
        rw [← hcp₆]
        exact here_does.at rfl
      Leads _ ⟨.rom .create_dentry 14, st, ip :: rs, m₇, io, none⟩ := hupdate.at rfl
      Leads _ ⟨.rom .create_dentry 15, 0x12c :: st, ip :: rs, m₇, io, none⟩ := run_leads (n := 3) rfl
      Leads _ ⟨.rom .create_dentry 16, st, ip :: rs, m₈, io, none⟩ := hcode.at rfl
      Leads _ _ := run_leads (n := 1) rfl
  · have hlen : (bytes m a n.toNat).length = n.toNat := length_bytes
    have happ' : Appended m₂ (bytes32 (load32 m Label.current.storage) ++ (bytes16 0 ++
        (BitVec.ofNat 8 (bytes m a n.toNat).length :: bytes m a n.toNat))) m₅ := by rwa [hlen]
    refine .of_steps (by rwa [hlen]) hkeeps₂ hcp₂ hlatest happ' ?_
    rw [hlen, ← hm₆, ← hm₇]
    exact happ₈

end Words

end Allwinner.Scp
