import Allwinner.Scp.Scanner

/-!
# The dictionary

A linked list of entries, the newest first. `dentry_by_name` walks it and compares each
name, whose length is a single byte, with the word it looks for.
-/

namespace Allwinner.Scp

open Library Memory
open Forth hiding ip ds rs mem io jump one two

structure Dentry where
  addr : Cell
  /-- The execution token, with the immediate flag in bit 0. -/
  xta : Half
  name : List Byte
  deriving DecidableEq

namespace Dentry

/-- As much of the name as its count byte tells. -/
def known (d : Dentry) : List Byte := d.name.take (d.name.length % 256)

theorem known_eq {d : Dentry} (h : d.name.length < 256) : d.known = d.name := by
  rw [known, Nat.mod_eq_of_lt h, List.take_length]

theorem length_known (d : Dentry) : d.known.length = d.name.length % 256 := by
  rw [known, List.length_take]
  have := Nat.mod_le d.name.length 256
  omega

/-- The entry stands in memory, its link apart. -/
structure In (d : Dentry) (m : Memory 32) : Prop where
  spot : Spot 4 d.addr
  span : Span d.addr (7 + d.name.length)
  xta : load16 m (d.addr + 4) = d.xta
  count : m (d.addr + 6) = BitVec.ofNat 8 d.name.length
  chars : bytes m (d.addr + 7) d.name.length = d.name

def cells (d : Dentry) : Set Nat := Set.Ico d.addr.toNat (d.addr.toNat + (7 + d.name.length))

theorem In.kept {d : Dentry} (h : d.In m) (hkeeps : Keeps W m m') (hW : ∀ n ∈ W, n ∉ d.cells) :
    d.In m' := by
  have hadd {k : Nat} (hk : k < 7 + d.name.length) := h.span.add hk
  have hhi : d.addr.toNat + (7 + d.name.length) ≤ sram_hi := h.span.2.1
  unfold sram_hi at hhi
  have hxta : (d.addr + 4).toNat = d.addr.toNat + 4 := hadd (k := 4) (by omega)
  have hcount : (d.addr + 6).toNat = d.addr.toNat + 6 := hadd (k := 6) (by omega)
  have hchars : (d.addr + 7).toNat = d.addr.toNat + 7 := toNat_add_ofNat (n := 7) (by omega)
  refine ⟨h.spot, h.span, ?_, ?_, ?_⟩
  · rw [← h.xta]
    exact hkeeps.load16 (by omega) fun n _ _ hn => hW n hn ⟨by omega, by omega⟩
  · rw [← h.count]
    exact hkeeps _ fun hn => hW _ hn ⟨by omega, by omega⟩
  · rw [hkeeps.bytes (by omega) fun k _ _ hk => hW k hk ⟨by omega, by omega⟩]
    exact h.chars

/-- An entry as the macro writes it, behind the one at `link`. -/
def image (link : Cell) (d : Dentry) : List Byte :=
  bytes32 link ++ (bytes16 d.xta ++ (BitVec.ofNat 8 d.name.length :: d.name))

theorem length_image (link : Cell) (d : Dentry) :
    (d.image link).length = 4 + (2 + (1 + d.name.length)) := by
  simp only [image, bytes32, bytes16, List.length_append, List.length_cons, List.length_nil]
  omega

theorem in_of_image {d : Dentry} (hspot : Spot 4 d.addr)
    (hspan : Span d.addr (7 + d.name.length))
    (h : bytes m d.addr (d.image link).length = d.image link) :
    d.In m ∧ load32 m d.addr = link := by
  have hcount : d.addr + BitVec.ofNat 32 4 + BitVec.ofNat 32 2 = d.addr + 6 := BitVec.add_assoc ..
  have hname : d.addr + 6 + BitVec.ofNat 32 1 = d.addr + 7 := BitVec.add_assoc ..
  rw [length_image, bytes_add, bytes_add, bytes_add, hcount, hname] at h
  obtain ⟨hlink, h⟩ := List.append_inj h rfl
  obtain ⟨hxta, h⟩ := List.append_inj h rfl
  obtain ⟨hlen, hchars⟩ := List.cons.inj h
  exact ⟨⟨hspot, hspan, load16_of_bytes hxta, hlen, hchars⟩, load32_of_bytes hlink⟩

end Dentry

/-- To the next multiple of the cell size. -/
def cell_align (c : Cell) : Cell := (c + 3) &&& -4

theorem cell_align_toNat (h : c.toNat + 3 < 2 ^ 32) :
    (cell_align c).toNat = (c.toNat + 3) / 4 * 4 := by
  have hadd : (c + 3).toNat = c.toNat + 3 := toNat_add_ofNat (n := 3) h
  have hmask : cell_align c = ((c + 3) >>> 2) <<< 2 := by
    rw [cell_align, show (-4 : Cell) = BitVec.allOnes 32 <<< 2 by decide]
    ext i hi
    simp only [BitVec.getElem_and, BitVec.getElem_shiftLeft, BitVec.getElem_allOnes,
      BitVec.getElem_ushiftRight]
    by_cases h : i < 2
    · simp [h]
    · simp [h, show 2 + (i - 2) = i by omega, BitVec.getLsbD_eq_getElem hi]
  rw [hmask, BitVec.toNat_shiftLeft, BitVec.toNat_ushiftRight, hadd, Nat.shiftRight_eq_div_pow,
    Nat.shiftLeft_eq]
  omega

/-- The entries that are linked from `a` on. -/
def Chain (m : Memory 32) : Cell → List Dentry → Prop
  | a, [] => a = 0
  | a, d :: ds => a = d.addr ∧ d.In m ∧ Chain m (load32 m d.addr) ds

theorem Chain.kept {ds : List Dentry} (h : Chain m a ds) (hkeeps : Keeps W m m')
    (hW : ∀ d ∈ ds, ∀ n ∈ W, n ∉ d.cells) : Chain m' a ds := by
  induction ds generalizing a with
  | nil => exact h
  | cons d ds ih =>
    obtain ⟨ha, hd, hrest⟩ := h
    have hd' := hW d (List.mem_cons_self ..)
    have hhi := hd.span.2
    unfold sram_hi at hhi
    have hlink : load32 m' d.addr = load32 m d.addr :=
      hkeeps.load32 (by omega) fun n hlo hhi hn => hd' n hn ⟨hlo, by omega⟩
    refine ⟨ha, hd.kept hkeeps hd', ?_⟩
    rw [hlink]
    exact ih hrest fun e he => hW e (List.mem_cons_of_mem _ he)

/-- The entries that can be found. -/
def Entries (m : Memory 32) (ds : List Dentry) : Prop := Chain m (load32 m Label.current.storage) ds

theorem Entries.kept {ds : List Dentry} (h : Entries m ds) (hkeeps : Keeps W m m')
    (hcurrent : ∀ n ∈ W, n ∉ Label.current.room) (hW : ∀ d ∈ ds, ∀ n ∈ W, n ∉ d.cells) :
    Entries m' ds := by
  rw [Entries, Label.kept hkeeps (by decide) hcurrent]
  exact Chain.kept h hkeeps hW

/-- The newest entry that is found under a name, and what `dentry_by_name` makes of it. -/
def lookup (ds : List Dentry) (w : List Byte) : Option Dentry := ds.find? (·.known == w)

def found (d : Option Dentry) : Cell := d.elim 0 Dentry.addr

namespace Dentry.In

variable {d : Dentry}

theorem addr_ne (h : d.In m) : d.addr ≠ 0 := by
  intro hzero
  have hlo := h.span.1
  rw [hzero, show start.toNat = 65536 by decide] at hlo
  cases hlo

/-- A text is the known part of a name if its length is the count byte and its characters
are those behind it. -/
theorem known_beq (h : d.In m) (w : List Byte) : (d.known == w) =
    ((m (d.addr + 6)).toNat == w.length && w == bytes m (d.addr + 7) w.length) := by
  have hcount : (m (d.addr + 6)).toNat = d.name.length % 256 := by rw [h.count, BitVec.toNat_ofNat]
  rw [hcount, Bool.eq_iff_iff, Bool.and_eq_true, beq_iff_eq, beq_iff_eq, beq_iff_eq]
  have hle := Nat.mod_le d.name.length 256
  have hknown : bytes m (d.addr + 7) (d.name.length % 256) = d.known := by
    rw [known, ← bytes_take hle, h.chars]
  constructor
  · rintro rfl
    rw [length_known, hknown]
    exact ⟨rfl, rfl⟩
  · rintro ⟨hlen, hw⟩
    rw [hw, ← hlen, hknown]

/-- The name as far as it is known stands in memory. -/
theorem known_bytes (h : d.In m) : d.known = bytes m (d.addr + 7) (m (d.addr + 6)).toNat := by
  rw [known, h.count, BitVec.toNat_ofNat, ← bytes_take (Nat.mod_le _ _), h.chars]

end Dentry.In

/-- The memory determines what can be found. -/
theorem Chain.known_unique {ds ds' : List Dentry} (h : Chain m a ds) (h' : Chain m a ds') :
    ds.map Dentry.known = ds'.map Dentry.known := by
  induction ds generalizing a ds' with
  | nil =>
    cases ds' with
    | nil => rfl
    | cons d' ds' => exact absurd (h'.1.symm.trans h) h'.2.1.addr_ne
  | cons d ds ih =>
    obtain ⟨ha, hd, hrest⟩ := h
    cases ds' with
    | nil => exact absurd (ha.symm.trans h') hd.addr_ne
    | cons d' ds' =>
      obtain ⟨ha', hd', hrest'⟩ := h'
      have haddr : d.addr = d'.addr := ha.symm.trans ha'
      rw [List.map_cons, List.map_cons, hd.known_bytes, hd'.known_bytes, haddr,
        ih hrest (haddr ▸ hrest')]

theorem lookup_eq_none {ds : List Dentry} : lookup ds w = none ↔ w ∉ ds.map Dentry.known := by
  simp [lookup]

variable [Board]

-- ---------------------------------------------------------------------------
-- Lookup
-- ---------------------------------------------------------------------------

theorem ask_string_match_does (n : Cell) (ha : Readable a n.toNat) (hs : Visible s)
    (hchars : Readable (s + 1) (m s).toNat) : Does .ask_string_match m [n, a, s]
      [flag ((m s).toNat == n.toNat && bytes m a n.toNat == bytes m (s + 1) n.toNat)] m := by
  refine .of_leads rfl fun ip ds rs io => ?_
  have hlen : ((m s).setWidth 32 : Cell).toNat = (m s).toNat := by
    have := (m s).isLt
    simp
    omega
  have hcompare : Leads ⟨.rom .ask_string_match 0, n :: a :: s :: ds, ip :: rs, m, io, none⟩
      ⟨.rom .ask_string_match 6, flag ((m s).setWidth 32 == n) :: s :: a :: ds, ip :: rs, m, io,
        none⟩ :=
    calc
      Leads ⟨.rom .ask_string_match 0, n :: a :: s :: ds, ip :: rs, m, io, none⟩
        ⟨.rom .ask_string_match 3, s :: s :: a :: ds, .ram n :: ip :: rs, m, io, none⟩ :=
          run_leads (n := 3) rfl
      Leads _ ⟨.rom .ask_string_match 4, (m s).setWidth 32 :: s :: a :: ds, .ram n :: ip :: rs, m,
        io, none⟩ := (cat_does hs).at rfl
      Leads _ _ := run_leads (n := 2) rfl
  refine hcompare.trans ?_
  by_cases hn : (m s).setWidth 32 = n
  · subst hn
    rw [beq_self_eq_true, hlen, beq_self_eq_true, Bool.true_and]
    rw [hlen] at ha
    calc
      Leads _ ⟨.rom .ask_string_match 7, s :: a :: ds, ip :: rs, m, io, none⟩ :=
        qbranch_passed rfl (flag_ne_zero.mpr rfl)
      Leads _ ⟨.rom .ask_string_match 8, (m s).setWidth 32 :: (s + 1) :: a :: ds, ip :: rs, m, io,
        none⟩ := (count_does hs).at rfl
      Leads _ ⟨.rom .ask_string_match 9, flag (bytes m a (m s).toNat == bytes m (s + 1) (m s).toNat)
        :: ds, ip :: rs, m, io, none⟩ := by
          have hequal := bytes_equal_does (m := m) ((m s).setWidth 32)
            (by rwa [hlen] : Readable a _) (by rwa [hlen] : Readable (s + 1) _)
          rw [hlen] at hequal
          exact hequal.at rfl
      Leads _ _ := run_leads (n := 1) rfl
  · have hne : (m s).toNat ≠ n.toNat := fun h => hn (BitVec.eq_of_toNat_eq (hlen.trans h))
    rw [beq_eq_false_iff_ne.mpr hn, beq_eq_false_iff_ne.mpr hne, Bool.false_and]
    exact (qbranch_taken rfl rfl rfl).trans (run_leads (n := 9) rfl)

variable [Sram]

theorem dentry_match_does {d : Dentry} (hd : d.In m) (n : Cell) (ha : Readable a n.toNat) :
    Does .ask_string_match m [n, a, d.addr + 6] [flag (d.known == bytes m a n.toNat)] m := by
  have hspan := hd.span.readable
  have hcount : (m (d.addr + 6)).toNat ≤ d.name.length := by
    rw [hd.count, BitVec.toNat_ofNat]
    exact Nat.mod_le _ _
  have hname : d.addr + 6 + 1 = d.addr + 7 := BitVec.add_assoc ..
  have hmatch := ask_string_match_does (m := m) (s := d.addr + 6) n ha (hspan 6 (by omega))
    (by rw [hname]; exact (hspan.drop 7).mono (by omega))
  rw [hname] at hmatch
  rw [hd.known_beq, length_bytes]
  exact hmatch

theorem dentry_by_name_loop (n : Cell) (ha : Readable a n.toNat) (ds : List Dentry)
    (hchain : Chain m x ds) :
    Leads ⟨.rom .dentry_by_name 5, x :: st, .ram a :: .ram n :: ip :: rs, m, io, none⟩
      ⟨ip, found (lookup ds (bytes m a n.toNat)) :: st, rs, m, io, none⟩ := by
  induction ds generalizing x with
  | nil =>
    obtain rfl : x = 0 := hchain
    exact (qdup_zero rfl).trans ((qbranch_taken rfl rfl rfl).trans (run_leads (n := 12) rfl))
  | cons d ds ih =>
    obtain ⟨rfl, hd, hrest⟩ := hchain
    have hname : d.addr + 4 + 2 = d.addr + 6 := BitVec.add_assoc ..
    have hmatch : Leads ⟨.rom .dentry_by_name 5, d.addr :: st, .ram a :: .ram n :: ip :: rs, m, io, none⟩
        ⟨.rom .dentry_by_name 12, flag (!(d.known == bytes m a n.toNat)) :: d.addr :: st,
          .ram a :: .ram n :: ip :: rs, m, io, none⟩ := by
      rw [← flag_xor, xor_neg_one]
      calc
        Leads _ ⟨.rom .dentry_by_name 6, d.addr :: d.addr :: st, .ram a :: .ram n :: ip :: rs, m, io,
          none⟩ := qdup_ne rfl hd.addr_ne
        Leads _ ⟨.rom .dentry_by_name 7, d.addr :: st, .ram a :: .ram n :: ip :: rs, m, io, none⟩ :=
          qbranch_passed rfl hd.addr_ne
        Leads _ ⟨.rom .dentry_by_name 10, n :: a :: (d.addr + 6) :: d.addr :: st,
          .ram a :: .ram n :: ip :: rs, m, io, none⟩ := by
            rw [← hname]
            exact run_leads (n := 20) rfl
        Leads _ ⟨.rom .dentry_by_name 11, flag (d.known == bytes m a n.toNat) :: d.addr :: st,
          .ram a :: .ram n :: ip :: rs, m, io, none⟩ := (dentry_match_does hd n ha).at rfl
        Leads _ _ := not_does.at rfl
    refine hmatch.trans ?_
    rw [lookup, List.find?_cons]
    cases d.known == bytes m a n.toNat with
    | true => exact (qbranch_taken rfl rfl rfl).trans (run_leads (n := 8) rfl)
    | false =>
      calc
        Leads _ ⟨.rom .dentry_by_name 13, d.addr :: st, .ram a :: .ram n :: ip :: rs, m, io, none⟩ :=
          qbranch_passed rfl (flag_ne_zero.mpr rfl)
        Leads _ ⟨.rom .dentry_by_name 14, load32 m d.addr :: st, .ram a :: .ram n :: ip :: rs, m, io,
          none⟩ := (at_does hd.spot.cell).at rfl
        Leads _ ⟨.rom .dentry_by_name 5, load32 m d.addr :: st, .ram a :: .ram n :: ip :: rs, m, io,
          none⟩ := run_leads (n := 2) rfl
        Leads _ _ := ih hrest

theorem dentry_by_name_does (h : Entries m ds) (n : Cell) (ha : Readable a n.toNat) :
    Does .dentry_by_name m [n, a] [found (lookup ds (bytes m a n.toNat))] m :=
  .of_leads rfl fun ip st rs io =>
    calc
      Leads ⟨.rom .dentry_by_name 0, n :: a :: st, ip :: rs, m, io, none⟩
        ⟨.rom .dentry_by_name 2, st, .ram a :: .ram n :: ip :: rs, m, io, none⟩ :=
          run_leads (n := 2) rfl
      Leads _ ⟨.rom .dentry_by_name 4, _ :: st, .ram a :: .ram n :: ip :: rs, m, io, none⟩ :=
        (Label.Var.of_isVar (l := .current) rfl).fetch rfl rfl
      Leads _ ⟨.rom .dentry_by_name 5, _ :: st, .ram a :: .ram n :: ip :: rs, m, io, none⟩ :=
        run_leads (n := 1) rfl
      Leads _ _ := dentry_by_name_loop n ha ds h

end Allwinner.Scp
