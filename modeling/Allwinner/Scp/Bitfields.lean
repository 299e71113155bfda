import Allwinner.Library.BitFields
import Allwinner.Scp.Threaded

/-!
# The bit-field words of the application

The utilities of `app.f` that its register updates go through, as the compiler leaves them in
the dictionary. `FOR AFT .. THEN NEXT` is a loop that is entered at its end, so that it runs as
often as its count says.
-/

namespace Allwinner.Scp

open Library Memory
open Forth hiding ip ds rs mem io jump one two

/-- The words `/`, `invert`, `lshift`, `rshift`, `bitmask`, `bf!` and `bf@`. -/
inductive Utility where
  | divide | invert | lshift | rshift | bitmask | bf_store | bf_fetch
  deriving DecidableEq

/-- What the words of a definition are compiled to. Branches name the half word they go to. -/
inductive Item where
  | xt (l : Label)
  | utility (w : Utility)
  | lit (v : Cell)
  | branch (i : Nat)
  | next (i : Nat)

def Item.halves (place : Utility → Cell) (a : Cell) : Item → List Half
  | xt l => [l.offset]
  | utility w => [xta (place w)]
  | lit v => [Label.dolit.offset, v.extractLsb' 16 16, v.extractLsb' 0 16]
  | branch i => [Label.branch.offset, xta (pos a i)]
  | next i => [Label.next.offset, xta (pos a i)]

namespace Utility

open Item

def body : Utility → List Item
  | divide => [lit 0, xt .swap, xt .umdiv_mod, xt .swap, xt .drop]
  | invert => [xt .not]
  | lshift => [xt .tor, branch 6, xt .dup, xt .plus, next 4]
  | rshift => [xt .tor, branch 8, lit 2, utility divide, next 4]
  | bitmask => [lit 1, xt .swap, utility lshift, lit 1, xt .sub]
  | bf_store => [utility bitmask, xt .rot, xt .tor, xt .«over», utility lshift, xt .tor,
      utility lshift, xt .rat, xt .and, xt .rfrom, utility invert, xt .rat, xt .«at», xt .and, xt .or, xt .rfrom,
      xt .store]
  | bf_fetch => [utility bitmask, xt .«over», utility lshift, xt .rot, xt .«at», xt .and, xt .swap,
      utility rshift]

def code (place : Utility → Cell) (w : Utility) : List Half :=
  Prim.code .dolist :: (w.body ++ [xt .exit]).flatMap (Item.halves place (place w))

end Utility

/-- Each word has been compiled at its place. -/
def Utilities (m : Memory 32) (place : Utility → Cell) : Prop :=
  ∀ w, Code m (place w) (w.code place)

/-- A register: an aligned address that the board answers as memory, and that holds none of the
code, nothing of the firmware and no stack. -/
structure Register [Board] (place : Utility → Cell) (a : Cell) : Prop where
  aligned : a.toNat % 4 = 0
  ram : Visible a
  free : fixed a = false
  spared : ∀ w, a.toNat + 4 ≤ (place w).toNat ∨
    (place w).toNat + 2 * (w.code place).length ≤ a.toNat

/-- The bytes of a register. -/
def register (a : Cell) : Set Nat := Set.Ico a.toNat (a.toNat + 4)

/-- The register with one of its fields written. -/
def field_set (m : Memory 32) (a s w v : Cell) : Memory 32 :=
  store32 m a (BitFields.insert (load32 m a) s.toNat w.toNat v)

theorem load_field_set {a : Cell} (ha : a.toNat + 4 ≤ 2 ^ 32) :
    load32 (field_set m a s w v) a = BitFields.insert (load32 m a) s.toNat w.toNat v :=
  load32_store32 _ ha

theorem field_set_keeps {a : Cell} (ha : a.toNat + 4 ≤ 2 ^ 32) :
    Keeps (register a) m (field_set m a s w v) := store32_keeps _ ha

/-- Fields of one register that do not overlap are written in any order. -/
theorem field_set_comm {a s s' w w' : Cell} (ha : a.toNat + 4 ≤ 2 ^ 32)
    (h : s.toNat + w.toNat ≤ 32) (h' : s'.toNat + w'.toNat ≤ 32)
    (hdisjoint : BitFields.Disjoint s.toNat w.toNat s'.toNat w'.toNat) :
    field_set (field_set m a s w v) a s' w' v' = field_set (field_set m a s' w' v') a s w v := by
  rw [field_set, load_field_set ha, field_set, store32_store32,
    BitFields.insert_comm _ _ _ h h' hdisjoint, field_set, load_field_set ha, field_set, store32_store32]

namespace Register

variable [Board] {place : Utility → Cell} {a : Cell}

theorem fits (h : Register place a) : a.toNat + 4 ≤ 2 ^ 32 := by
  have := h.aligned
  have := a.isLt
  omega

theorem access (h : Register place a) : access 4 a = .ram :=
  access_ram (n := 4) h.aligned h.ram (by decide)

theorem store_access (h : Register place a) : store_access 4 a = .ram := store_access_ram h.access h.free

theorem kept (h : Register place a) (hu : Utilities m place) (hkeeps : Keeps (register a) m m') :
    Utilities m' place := by
  intro w
  refine (hu w).kept hkeeps fun n hn hcode => ?_
  have := h.spared w
  have := hn.1
  have := hn.2
  omega

end Register

theorem shiftLeft_succ (u : Cell) (n : Nat) : u <<< (n + 1) = (u + u) <<< n := by
  have hone : u <<< 1 = u + u := by
    apply BitVec.eq_of_toNat_eq
    simp [Nat.shiftLeft_eq, Nat.mul_two]
  rw [Nat.add_comm, BitVec.shiftLeft_add, hone]

theorem ushiftRight_succ (u : Cell) (n : Nat) :
    u >>> (n + 1) = BitVec.ofNat 32 (u.toNat / (2 : Cell).toNat) >>> n := by
  have hone : u >>> 1 = BitVec.ofNat 32 (u.toNat / (2 : Cell).toNat) := by
    apply BitVec.eq_of_toNat_eq
    have := u.isLt
    simp [Nat.shiftRight_eq_div_pow]
    omega
  rw [Nat.add_comm, BitVec.shiftRight_add, hone]

section Words

variable [Board] [Sram] {m m' : Memory 32} {place : Utility → Cell}

-- ---------------------------------------------------------------------------
-- Division and shifts
-- ---------------------------------------------------------------------------

theorem invert_performs (hu : Utilities m place) (v : Cell) :
    Performs (place .invert) m [v] [~~~v] m :=
  (hu .invert).performs rfl fun _ _ _ _ =>
    (not_does.code (hu .invert) rfl (by decide)).trans ((hu .invert).exits rfl)

theorem divide_performs (hu : Utilities m place) {d : Cell} (hd : 0 < d.toNat) (u : Cell) :
    Performs (place .divide) m [d, u] [BitVec.ofNat 32 (u.toNat / d.toNat)] m := by
  have hc := hu .divide
  have hdiv := umdiv_mod_does (m := m) (by simpa using hd : (0 : Cell).toNat < d.toNat) u
  rw [wide, show (0 : Cell).toNat = 0 from rfl, Nat.zero_mul, Nat.zero_add] at hdiv
  refine hc.performs rfl fun ip ds rs io => ?_
  calc
    Leads _ ⟨.ram (pos (place .divide) 4), 0 :: d :: u :: ds, ip :: rs, m, io, none⟩ :=
      hc.lit (v := 0) rfl rfl rfl
    Leads _ ⟨.ram (pos (place .divide) 5), d :: 0 :: u :: ds, ip :: rs, m, io, none⟩ :=
      hc.label rfl (by decide) rfl
    Leads _ ⟨.ram (pos (place .divide) 6), _ :: _ :: ds, ip :: rs, m, io, none⟩ :=
      hdiv.code hc rfl (by decide)
    Leads _ ⟨.ram (pos (place .divide) 7), _ :: _ :: ds, ip :: rs, m, io, none⟩ :=
      hc.label rfl (by decide) rfl
    Leads _ ⟨.ram (pos (place .divide) 8), _ :: ds, ip :: rs, m, io, none⟩ :=
      hc.label rfl (by decide) rfl
    Leads _ _ := hc.exits rfl

theorem lshift_loop (hu : Utilities m place) (n : Nat) {c : Cell} (hn : c.toNat = n) :
    Leads ⟨.ram (pos (place .lshift) 6), u :: ds, .ram c :: ip :: rs, m, io, none⟩
      ⟨ip, (u <<< n) :: ds, rs, m, io, none⟩ := by
  have hc := hu .lshift
  induction n generalizing c u with
  | zero =>
    obtain rfl : c = 0 := BitVec.eq_of_toNat_eq hn
    rw [BitVec.shiftLeft_zero]
    exact (hc.next_passed rfl rfl).trans (hc.exits rfl)
  | succ n ih =>
    have hne : c ≠ 0 := by rintro rfl; cases hn
    rw [shiftLeft_succ]
    calc
      Leads _ ⟨.ram (pos (place .lshift) 4), u :: ds, .ram (c - 1) :: ip :: rs, m, io, none⟩ :=
        hc.next_taken (r := .ram c) rfl rfl rfl hne
      Leads _ ⟨.ram (pos (place .lshift) 5), u :: u :: ds, .ram (c - 1) :: ip :: rs, m, io, none⟩ :=
        hc.label rfl (by decide) rfl
      Leads _ ⟨.ram (pos (place .lshift) 6), (u + u) :: ds, .ram (c - 1) :: ip :: rs, m, io, none⟩ :=
        plus_does.code hc rfl (by decide)
      Leads _ _ := ih (by rw [toNat_pred hne]; omega)

theorem lshift_performs (hu : Utilities m place) (n u : Cell) :
    Performs (place .lshift) m [n, u] [u <<< n.toNat] m := by
  have hc := hu .lshift
  refine hc.performs rfl fun ip ds rs io => ?_
  calc
    Leads _ ⟨.ram (pos (place .lshift) 2), u :: ds, .ram n :: ip :: rs, m, io, none⟩ :=
      hc.label rfl (by decide) rfl
    Leads _ ⟨.ram (pos (place .lshift) 6), u :: ds, .ram n :: ip :: rs, m, io, none⟩ :=
      hc.branch rfl rfl rfl
    Leads _ _ := lshift_loop hu n.toNat rfl

theorem rshift_loop (hu : Utilities m place) (n : Nat) {c : Cell} (hn : c.toNat = n) :
    Leads ⟨.ram (pos (place .rshift) 8), u :: ds, .ram c :: ip :: rs, m, io, none⟩
      ⟨ip, (u >>> n) :: ds, rs, m, io, none⟩ := by
  have hc := hu .rshift
  induction n generalizing c u with
  | zero =>
    obtain rfl : c = 0 := BitVec.eq_of_toNat_eq hn
    rw [BitVec.ushiftRight_zero]
    exact (hc.next_passed rfl rfl).trans (hc.exits rfl)
  | succ n ih =>
    have hne : c ≠ 0 := by rintro rfl; cases hn
    rw [ushiftRight_succ]
    calc
      Leads _ ⟨.ram (pos (place .rshift) 4), u :: ds, .ram (c - 1) :: ip :: rs, m, io, none⟩ :=
        hc.next_taken (r := .ram c) rfl rfl rfl hne
      Leads _ ⟨.ram (pos (place .rshift) 7), 2 :: u :: ds, .ram (c - 1) :: ip :: rs, m, io, none⟩ :=
        hc.lit (v := 2) rfl rfl rfl
      Leads _ ⟨.ram (pos (place .rshift) 8), _ :: ds, .ram (c - 1) :: ip :: rs, m, io, none⟩ :=
        (divide_performs hu (by decide) u).code hc rfl (hu .divide) rfl
      Leads _ _ := ih (by rw [toNat_pred hne]; omega)

theorem rshift_performs (hu : Utilities m place) (n u : Cell) :
    Performs (place .rshift) m [n, u] [u >>> n.toNat] m := by
  have hc := hu .rshift
  refine hc.performs rfl fun ip ds rs io => ?_
  calc
    Leads _ ⟨.ram (pos (place .rshift) 2), u :: ds, .ram n :: ip :: rs, m, io, none⟩ :=
      hc.label rfl (by decide) rfl
    Leads _ ⟨.ram (pos (place .rshift) 8), u :: ds, .ram n :: ip :: rs, m, io, none⟩ :=
      hc.branch rfl rfl rfl
    Leads _ _ := rshift_loop hu n.toNat rfl

theorem bitmask_performs (hu : Utilities m place) (w : Cell) :
    Performs (place .bitmask) m [w] [BitFields.mask 32 w.toNat] m := by
  have hc := hu .bitmask
  refine hc.performs rfl fun ip ds rs io => ?_
  calc
    Leads _ ⟨.ram (pos (place .bitmask) 4), 1 :: w :: ds, ip :: rs, m, io, none⟩ :=
      hc.lit (v := 1) rfl rfl rfl
    Leads _ ⟨.ram (pos (place .bitmask) 5), w :: 1 :: ds, ip :: rs, m, io, none⟩ :=
      hc.label rfl (by decide) rfl
    Leads _ ⟨.ram (pos (place .bitmask) 6), _ :: ds, ip :: rs, m, io, none⟩ :=
      (lshift_performs hu w 1).code hc rfl (hu .lshift) rfl
    Leads _ ⟨.ram (pos (place .bitmask) 9), 1 :: _ :: ds, ip :: rs, m, io, none⟩ :=
      hc.lit (v := 1) rfl rfl rfl
    Leads _ ⟨.ram (pos (place .bitmask) 10), _ :: ds, ip :: rs, m, io, none⟩ :=
      sub_does.code hc rfl (by decide)
    Leads _ _ := hc.exits rfl

-- ---------------------------------------------------------------------------
-- Fields
-- ---------------------------------------------------------------------------

/-- `bf!` changes what `@` fetches and stores it with `!`, whatever is at the address. -/
theorem bf_store_leads (hu : Utilities m place) {io io₁ io₂ : Io} {a v s w x : Cell}
    (hat : ∀ ip ds rs, call false .«at» ⟨ip, a :: ds, rs, m, io, none⟩ = .on ⟨ip, x :: ds, rs, m, io₁, none⟩)
    (hstore : ∀ ip ds rs, call false .store ⟨ip, a :: BitFields.insert x s.toNat w.toNat v :: ds, rs, m, io₁, none⟩ =
      .on ⟨ip, ds, rs, m', io₂, none⟩)
    (hc' : Code m' (place .bf_store) (Utility.bf_store.code place)) (ip : Ip) (ds : List Cell) (rs : List Ip) :
    ∃ t, enter false (place .bf_store) ⟨ip, w :: s :: a :: v :: ds, rs, m, io, none⟩ = .on t ∧
      Leads t ⟨ip, ds, rs, m', io₂, none⟩ := by
  have hc := hu .bf_store
  refine ⟨_, hc.enters rfl, ?_⟩
  rw [BitFields.insert, BitVec.and_comm x, BitVec.or_comm] at hstore
  generalize hfield : BitFields.mask 32 w.toNat <<< s.toNat = field at hstore
  calc
    Leads _ ⟨.ram (pos (place .bf_store) 2), _ :: s :: a :: v :: ds, ip :: rs, m, io, none⟩ :=
      (bitmask_performs hu w).code hc rfl (hu .bitmask) rfl
    Leads _ ⟨.ram (pos (place .bf_store) 3), a :: _ :: s :: v :: ds, ip :: rs, m, io, none⟩ :=
      rot_does.code hc rfl (by decide)
    Leads _ ⟨.ram (pos (place .bf_store) 4), _ :: s :: v :: ds, .ram a :: ip :: rs, m, io, none⟩ :=
      hc.label rfl (by decide) rfl
    Leads _ ⟨.ram (pos (place .bf_store) 5), s :: _ :: s :: v :: ds, .ram a :: ip :: rs, m, io, none⟩ :=
      hc.label rfl (by decide) rfl
    Leads _ ⟨.ram (pos (place .bf_store) 6), field :: s :: v :: ds, .ram a :: ip :: rs, m, io, none⟩ := by
      rw [← hfield]
      exact (lshift_performs hu s _).code hc rfl (hu .lshift) rfl
    Leads _ ⟨.ram (pos (place .bf_store) 7), s :: v :: ds, .ram field :: .ram a :: ip :: rs, m, io,
      none⟩ := hc.label rfl (by decide) rfl
    Leads _ ⟨.ram (pos (place .bf_store) 8), v <<< s.toNat :: ds, .ram field :: .ram a :: ip :: rs, m,
      io, none⟩ := (lshift_performs hu s v).code hc rfl (hu .lshift) rfl
    Leads _ ⟨.ram (pos (place .bf_store) 9), field :: v <<< s.toNat :: ds,
      .ram field :: .ram a :: ip :: rs, m, io, none⟩ := hc.label rfl (by decide) rfl
    Leads _ ⟨.ram (pos (place .bf_store) 10), (v <<< s.toNat &&& field) :: ds,
      .ram field :: .ram a :: ip :: rs, m, io, none⟩ := hc.label rfl (by decide) rfl
    Leads _ ⟨.ram (pos (place .bf_store) 11), field :: (v <<< s.toNat &&& field) :: ds,
      .ram a :: ip :: rs, m, io, none⟩ := hc.label rfl (by decide) rfl
    Leads _ ⟨.ram (pos (place .bf_store) 12), ~~~field :: (v <<< s.toNat &&& field) :: ds,
      .ram a :: ip :: rs, m, io, none⟩ := (invert_performs hu field).code hc rfl (hu .invert) rfl
    Leads _ ⟨.ram (pos (place .bf_store) 13), a :: ~~~field :: (v <<< s.toNat &&& field) :: ds,
      .ram a :: ip :: rs, m, io, none⟩ := hc.label rfl (by decide) rfl
    Leads _ ⟨.ram (pos (place .bf_store) 14), x :: ~~~field ::
      (v <<< s.toNat &&& field) :: ds, .ram a :: ip :: rs, m, io₁, none⟩ :=
        hc.label rfl (by decide) (hat _ _ _)
    Leads _ ⟨.ram (pos (place .bf_store) 15), (~~~field &&& x) ::
      (v <<< s.toNat &&& field) :: ds, .ram a :: ip :: rs, m, io₁, none⟩ := hc.label rfl (by decide) rfl
    Leads _ ⟨.ram (pos (place .bf_store) 16), (v <<< s.toNat &&& field ||| ~~~field &&& x) ::
      ds, .ram a :: ip :: rs, m, io₁, none⟩ := hc.label rfl (by decide) rfl
    Leads _ ⟨.ram (pos (place .bf_store) 17), a ::
      (v <<< s.toNat &&& field ||| ~~~field &&& x) :: ds, ip :: rs, m, io₁, none⟩ :=
        hc.label rfl (by decide) rfl
    Leads _ ⟨.ram (pos (place .bf_store) 18), ds, ip :: rs, m', io₂, none⟩ :=
      hc.label rfl (by decide) (hstore _ _ _)
    Leads _ _ := hc'.exits rfl

theorem bf_store_performs (hu : Utilities m place) {a : Cell} (ha : Register place a) (v s w : Cell) :
    Performs (place .bf_store) m [w, s, a, v] [] (field_set m a s w v) := by
  have hc' := ha.kept hu (field_set_keeps (s := s) (w := w) (v := v) ha.fits) .bf_store
  intro ip ds rs io
  have hat (ip : Ip) (ds : List Cell) (rs : List Ip) : call false .«at» ⟨ip, a :: ds, rs, m, io, none⟩ =
      .on ⟨ip, load32 m a :: ds, rs, m, io, none⟩ := by
    simp only [call, Label.prim?, Prim.turn, loading, Forth.one, ha.access]
  refine bf_store_leads hu hat (fun _ _ _ => ?_) hc' ip ds rs
  simp only [call, Label.prim?, Prim.turn, storing, Forth.two, ha.store_access]
  rfl

theorem bf_fetch_performs (hu : Utilities m place) {a : Cell} (ha : Register place a) (s w : Cell) :
    Performs (place .bf_fetch) m [w, s, a] [BitFields.extract (load32 m a) s.toNat w.toNat] m := by
  have hc := hu .bf_fetch
  refine hc.performs rfl fun ip ds rs io => ?_
  rw [BitFields.extract, BitVec.and_comm]
  generalize hfield : BitFields.mask 32 w.toNat <<< s.toNat = field
  calc
    Leads _ ⟨.ram (pos (place .bf_fetch) 2), _ :: s :: a :: ds, ip :: rs, m, io, none⟩ :=
      (bitmask_performs hu w).code hc rfl (hu .bitmask) rfl
    Leads _ ⟨.ram (pos (place .bf_fetch) 3), s :: _ :: s :: a :: ds, ip :: rs, m, io, none⟩ :=
      hc.label rfl (by decide) rfl
    Leads _ ⟨.ram (pos (place .bf_fetch) 4), field :: s :: a :: ds, ip :: rs, m, io, none⟩ := by
      rw [← hfield]
      exact (lshift_performs hu s _).code hc rfl (hu .lshift) rfl
    Leads _ ⟨.ram (pos (place .bf_fetch) 5), a :: field :: s :: ds, ip :: rs, m, io, none⟩ :=
      rot_does.code hc rfl (by decide)
    Leads _ ⟨.ram (pos (place .bf_fetch) 6), load32 m a :: field :: s :: ds, ip :: rs, m, io, none⟩ :=
      (at_does ha.access).code hc rfl (by decide)
    Leads _ ⟨.ram (pos (place .bf_fetch) 7), (field &&& load32 m a) :: s :: ds, ip :: rs, m, io,
      none⟩ := hc.label rfl (by decide) rfl
    Leads _ ⟨.ram (pos (place .bf_fetch) 8), s :: (field &&& load32 m a) :: ds, ip :: rs, m, io,
      none⟩ := hc.label rfl (by decide) rfl
    Leads _ ⟨.ram (pos (place .bf_fetch) 9), (field &&& load32 m a) >>> s.toNat :: ds, ip :: rs, m,
      io, none⟩ := (rshift_performs hu s _).code hc rfl (hu .rshift) rfl
    Leads _ _ := hc.exits rfl

/-- `bf!` changes the bits of its field to those of its argument and nothing else, `bf@` reads
them back, and writes to fields that do not overlap commute. -/
theorem bit_fields (hu : Utilities m place) {a : Cell} (ha : Register place a) {s w : Cell}
    (h : s.toNat + w.toNat ≤ 32) (v : Cell) :
    ∃ m', Fulfils (place .bf_store) m [w, s, a, v] [] m' ∧ Keeps (register a) m m' ∧
      (∀ i < 32, (load32 m' a).getLsbD i = if s.toNat ≤ i ∧ i < s.toNat + w.toNat
        then v.getLsbD (i - s.toNat) else (load32 m a).getLsbD i) ∧
      Fulfils (place .bf_fetch) m' [w, s, a] [BitVec.ofNat 32 (v.toNat % 2 ^ w.toNat)] m' ∧
      ∀ s' w' v' : Cell, s'.toNat + w'.toNat ≤ 32 →
        BitFields.Disjoint s.toNat w.toNat s'.toNat w'.toNat →
        ∃ n n', Fulfils (place .bf_store) m' [w', s', a, v'] [] n ∧
          Fulfils (place .bf_store) m [w', s', a, v'] [] n' ∧
          Fulfils (place .bf_store) n' [w, s, a, v] [] n := by
  have hkept {s w v : Cell} := ha.kept hu (field_set_keeps (s := s) (w := w) (v := v) ha.fits)
  refine ⟨_, (bf_store_performs hu ha v s w).fulfils, field_set_keeps ha.fits, fun i hi => ?_, ?_, ?_⟩
  · rw [load_field_set ha.fits, BitFields.getLsbD_insert _ _ h hi]
  · have hfetch := bf_fetch_performs (hkept (s := s) (w := w) (v := v)) ha s w
    rw [load_field_set ha.fits, BitFields.extract_insert _ _ h] at hfetch
    exact hfetch.fulfils
  · intro s' w' v' h' hdisjoint
    refine ⟨_, _, (bf_store_performs hkept ha v' s' w').fulfils, (bf_store_performs hu ha v' s' w').fulfils, ?_⟩
    rw [field_set_comm ha.fits h h' hdisjoint]
    exact (bf_store_performs hkept ha v s w).fulfils

end Words

namespace Bitfields

local instance : Board := .flat
local instance : Sram := .flat

/-- One word behind the other. -/
def place : Utility → Cell
  | .divide => 0x13000 | .invert => 0x13020 | .lshift => 0x13040 | .rshift => 0x13060
  | .bitmask => 0x13080 | .bf_store => 0x130a0 | .bf_fetch => 0x130e0

def segments : List (Cell × List Byte) :=
  [.divide, .invert, .lshift, .rshift, .bitmask, .bf_store, .bf_fetch].map fun w =>
    (place w, (w.code place).flatMap bytes16)

def utilities : Memory 32 := load (fun _ => 0) segments

theorem utilities_compiled : Utilities utilities place := by
  have hascend : segments.Pairwise fun s t => s.1.toNat + s.2.length ≤ t.1.toNat := by decide +kernel
  have hfit : ∀ s ∈ segments, s.1.toNat + s.2.length ≤ 2 ^ 32 := by decide +kernel
  intro w
  have hmem : (place w, (w.code place).flatMap bytes16) ∈ segments :=
    List.mem_map.mpr ⟨w, by cases w <;> decide, rfl⟩
  have himage := bytes_load (m := fun _ => 0) hascend hfit hmem
  cases w <;> exact ⟨by decide, by decide, by decide, himage⟩

/-- The field of the PLL factor, next to the divider. -/
theorem bit_fields_register : ∃ m', Fulfils (place .bf_store) utilities [5, 8, 0x1c20000, 0x1ff] [] m' ∧
    Keeps (register 0x1c20000) utilities m' ∧ (load32 m' 0x1c20000).getLsbD 12 = true ∧
    (load32 m' 0x1c20000).getLsbD 13 = (load32 utilities 0x1c20000).getLsbD 13 ∧
    Fulfils (place .bf_fetch) m' [5, 8, 0x1c20000] [0x1f] m' ∧
    ∃ n n', Fulfils (place .bf_store) m' [2, 4, 0x1c20000, 1] [] n ∧
      Fulfils (place .bf_store) utilities [2, 4, 0x1c20000, 1] [] n' ∧
      Fulfils (place .bf_store) n' [5, 8, 0x1c20000, 0x1ff] [] n := by
  obtain ⟨m', hstore, hkeeps, hbits, hfetch, hcomm⟩ := bit_fields utilities_compiled (a := 0x1c20000)
    ⟨by decide, ⟨rfl, rfl⟩, rfl, by intro w; cases w <;> decide⟩ (s := 8) (w := 5) (by decide) 0x1ff
  have hinside : (load32 m' 0x1c20000).getLsbD 12 = true :=
    (hbits 12 (by decide)).trans ((if_pos (by decide)).trans (by decide))
  have houtside := (hbits 13 (by decide)).trans (if_neg (by decide))
  exact ⟨m', hstore, hkeeps, hinside, houtside, hfetch, hcomm 4 2 1 (by decide) (.inr (by decide))⟩

end Bitfields

end Allwinner.Scp
