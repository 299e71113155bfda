import Allwinner.Scp.Mailbox
import Allwinner.Scp.Numbers
import Allwinner.Scp.Output
import Allwinner.Scp.Threaded

/-!
# Output to the mailbox buffer

While a request is evaluated, `emit` appends to `mob`. The bound of the application's
`emit_mob` is the literal `1000`, which the compiler reads after `hex`.
-/

namespace Allwinner.Scp

open Library Memory
open Forth hiding ip ds rs mem io jump one two

/-- The words `+!`, `mob`, `emit_mob` and `output_mob`. -/
inductive MobWord where
  | plus_store | mob | emit_mob | output_mob
  deriving DecidableEq

inductive MobItem where
  | xt (l : Label)
  | word (w : MobWord)
  | lit (v : Cell)
  | qbranch (i : Nat)
  | xtalit (w : MobWord)

def MobItem.halves (place : MobWord → Cell) (a : Cell) : MobItem → List Half
  | xt l => [l.offset]
  | word w => [xta (place w)]
  | lit v => [Label.dolit.offset, v.extractLsb' 16 16, v.extractLsb' 0 16]
  | qbranch i => [Label.qbranch.offset, xta (pos a i)]
  | xtalit w => [Label.xtalit.offset, xta (place w)]

/-- What the compiler makes of a number in the base that `hex` sets. -/
def hex_literal (s : List Byte) : Cell := BitVec.ofNat 32 ((recognised 16 s).getD 0)

namespace MobWord

def body : MobWord → List MobItem
  | plus_store => [.xt .dup, .xt .«at», .xt .inc, .xt .swap, .xt .store]
  | mob => [.lit (hex_literal (ascii "13800"))]
  | emit_mob => [.word mob, .xt .«at», .lit (hex_literal (ascii "1000")), .xt .slt, .qbranch 21,
      .xt .dup, .word mob, .xt .«at», .word mob, .xt .plus, .lit (hex_literal (ascii "4")), .xt .plus,
      .xt .cstore, .word mob, .word plus_store, .xt .drop]
  | output_mob => [.lit (hex_literal (ascii "0")), .word mob, .xt .store, .xtalit emit_mob,
      .xt .emit_xt, .xt .store]

def code (place : MobWord → Cell) (w : MobWord) : List Half :=
  Prim.code .dolist :: (w.body ++ [MobItem.xt .exit]).flatMap (MobItem.halves place (place w))

end MobWord

/-- The buffer of the output, its count first, and the one of the request behind it. -/
def mob : Cell := 0x13800
def mib : Cell := 0x13c00

theorem mob_toNat : mob.toNat = 79872 := by decide

theorem hex_literals : hex_literal (ascii "13800") = mob ∧ hex_literal (ascii "1000") = 0x1000 ∧
    hex_literal (ascii "4") = 4 ∧ hex_literal (ascii "0") = 0 := by decide

/-- Each word has been compiled at its place, all of them below the buffers. -/
structure MobWords (m : Memory 32) (place : MobWord → Cell) : Prop where
  code : ∀ w, Code m (place w) (w.code place)
  below : ∀ w, (place w).toNat + 2 * (w.code place).length ≤ mob.toNat

/-- The count in `mob`. -/
def mob_count (m : Memory 32) : Cell := load32 m mob

/-- What `emit_mob` stores, below its bound. -/
def emitted (m : Memory 32) (c : Cell) : Memory 32 :=
  store32 (store8 m (mob_count m + mob + 4) (c.setWidth 8)) mob (mob_count m + 1)

/-- The variable `'emit` with the execution token of `emit_mob`. -/
def Directed (m : Memory 32) (place : MobWord → Cell) : Prop :=
  load32 m Label.emit_xt.storage = (xta (place .emit_mob)).setWidth 32

/-- The buffer as the ARM sees it. -/
def mob_buffer (m : Memory 32) : SharedBuffer where
  count := mob_count m
  chars i := m (mob + 4 + BitVec.ofNat 32 (swizzledIndex i))

theorem MobWords.kept {place : MobWord → Cell} (h : MobWords m place) (hkeeps : Keeps W m m')
    (hW : ∀ n ∈ W, mob.toNat ≤ n ∨ n < bss_end.toNat) : MobWords m' place where
  code w := (h.code w).kept hkeeps fun n hn hcode => by
    have := hW n hn
    have := h.below w
    have := (h.code w).low
    omega
  below := h.below

/-- The bound is 4096. -/
theorem below_bound {k : Cell} (hk : k.toNat < 4096) : k.slt 0x1000 = true := by
  have hint : k.toInt = k.toNat := BitVec.toInt_eq_toNat_of_lt (by omega)
  have hbound : (0x1000 : Cell).toInt = 4096 := by decide
  rw [BitVec.slt, hint, hbound, decide_eq_true_eq]
  omega

/-- Where the next character goes. -/
theorem char_addr_toNat (hk : k.toNat ≤ 1000) : (k + mob + 4).toNat = mob.toNat + 4 + k.toNat := by
  rw [BitVec.toNat_add, BitVec.toNat_add, mob_toNat, show (4 : Cell).toNat = 4 from rfl]
  omega

theorem emitted_keeps (hk : (mob_count m).toNat ≤ 1000) :
    Keeps (Set.Ico mob.toNat (mob.toNat + 4 + (mob_count m).toNat + 1)) m (emitted m c) := by
  have hadd := char_addr_toNat hk
  refine ((store8_keeps _).union (store32_keeps _ (by decide))).mono ?_
  rw [hadd]
  rintro n (⟨_, _⟩ | ⟨_, _⟩) <;> constructor <;> omega

section Words

variable [Board] [Sram] {m m' : Memory 32} {place : MobWord → Cell}

theorem mob_access : store_access 4 mob = .ram := store_access_ram (Spot.cell (by decide)) (by decide)

theorem plus_store_performs (h : MobWords m place) (ha : store_access 4 a = .ram)
    (hcode : Code (store32 m a (load32 m a + 1)) (place .plus_store) (MobWord.plus_store.code place)) :
    Performs (place .plus_store) m [a] [] (store32 m a (load32 m a + 1)) := by
  have hc := h.code .plus_store
  refine hc.performs rfl fun ip ds rs io => ?_
  calc
    Leads _ ⟨.ram (pos (place .plus_store) 2), a :: a :: ds, ip :: rs, m, io, none⟩ :=
      hc.label rfl (by decide) rfl
    Leads _ ⟨.ram (pos (place .plus_store) 3), load32 m a :: a :: ds, ip :: rs, m, io, none⟩ :=
      (at_does (access_of_store ha)).code hc rfl (by decide)
    Leads _ ⟨.ram (pos (place .plus_store) 4), (load32 m a + 1) :: a :: ds, ip :: rs, m, io, none⟩ :=
      inc_does.code hc rfl (by decide)
    Leads _ ⟨.ram (pos (place .plus_store) 5), a :: (load32 m a + 1) :: ds, ip :: rs, m, io, none⟩ :=
      hc.label rfl (by decide) rfl
    Leads _ ⟨.ram (pos (place .plus_store) 6), ds, ip :: rs, _, io, none⟩ :=
      (store_does ha).code hc rfl (by decide)
    Leads _ _ := hcode.exits rfl

theorem mob_performs (h : MobWords m place) : Performs (place .mob) m [] [mob] m := by
  have hc := h.code .mob
  refine hc.performs rfl fun ip ds rs io => ?_
  rw [← hex_literals.1]
  exact (hc.lit rfl rfl rfl).trans (hc.exits rfl)

/-- The `mob` of another word. -/
theorem MobWords.mob_at (h : MobWords m place) (hc : Code m a hs) (hi : hs[i]? = some (xta (place .mob))) :
    Leads ⟨.ram (pos a i), ds, rs, m, io, none⟩ ⟨.ram (pos a (i + 1)), mob :: ds, rs, m, io, none⟩ :=
  (mob_performs h).code hc hi (h.code .mob) rfl

theorem emit_mob_performs (h : MobWords m place) (c : Cell) (hk : (mob_count m).toNat ≤ 1000) :
    Performs (place .emit_mob) m [c] [] (emitted m c) := by
  have hc := h.code .emit_mob
  have hmob := mob_toNat
  have hadd := char_addr_toNat hk
  have hram : Visible (mob_count m + mob + 4) ∧ fixed (mob_count m + mob + 4) = false := by
    refine (Writable.behind (n := 1) ?_ ?_).head (by decide) <;> rw [hadd]
    · omega
    · unfold sram_hi
      omega
  have hchar := store8_keeps (m := m) (a := mob_count m + mob + 4) (c.setWidth 8)
  have hstored := emitted_keeps (m := m) (c := c) hk
  have h₁ : MobWords (store8 m (mob_count m + mob + 4) (c.setWidth 8)) place :=
    h.kept hchar fun n hn => .inl (by have := hn.1; omega)
  have h₂ : MobWords (emitted m c) place := h.kept hstored fun n hn => .inl hn.1
  have hcount : mob_count (store8 m (mob_count m + mob + 4) (c.setWidth 8)) = mob_count m :=
    hchar.load32 (by decide) fun n _ hhi hn => by
      have := hn.1
      omega
  have hcstore : Does .cstore m [mob_count m + mob + 4, c] [] _ := cstore_does hram
  have hplus := plus_store_performs h₁ mob_access (by
    rw [show load32 (store8 m (mob_count m + mob + 4) (c.setWidth 8)) mob = mob_count m from hcount]
    exact h₂.code .plus_store)
  rw [show load32 (store8 m (mob_count m + mob + 4) (c.setWidth 8)) mob = mob_count m from hcount] at hplus
  have hbound := below_bound (k := mob_count m) (by omega)
  refine hc.performs rfl fun ip ds rs io => ?_
  calc
    Leads _ ⟨.ram (pos (place .emit_mob) 2), mob :: c :: ds, ip :: rs, m, io, none⟩ := h.mob_at hc rfl
    Leads _ ⟨.ram (pos (place .emit_mob) 3), mob_count m :: c :: ds, ip :: rs, m, io, none⟩ :=
      (at_does (access_of_store mob_access)).code hc rfl (by decide)
    Leads _ ⟨.ram (pos (place .emit_mob) 6), 0x1000 :: mob_count m :: c :: ds, ip :: rs, m, io, none⟩ := by
      rw [← hex_literals.2.1]
      exact hc.lit rfl rfl rfl
    Leads _ ⟨.ram (pos (place .emit_mob) 7), flag true :: c :: ds, ip :: rs, m, io, none⟩ := by
      rw [← hbound]
      exact hc.label rfl (by decide) rfl
    Leads _ ⟨.ram (pos (place .emit_mob) 9), c :: ds, ip :: rs, m, io, none⟩ :=
      hc.qbranch_passed rfl rfl (by decide)
    Leads _ ⟨.ram (pos (place .emit_mob) 10), c :: c :: ds, ip :: rs, m, io, none⟩ :=
      hc.label rfl (by decide) rfl
    Leads _ ⟨.ram (pos (place .emit_mob) 11), mob :: c :: c :: ds, ip :: rs, m, io, none⟩ := h.mob_at hc rfl
    Leads _ ⟨.ram (pos (place .emit_mob) 12), mob_count m :: c :: c :: ds, ip :: rs, m, io, none⟩ :=
      (at_does (access_of_store mob_access)).code hc rfl (by decide)
    Leads _ ⟨.ram (pos (place .emit_mob) 13), mob :: mob_count m :: c :: c :: ds, ip :: rs, m, io, none⟩ :=
      h.mob_at hc rfl
    Leads _ ⟨.ram (pos (place .emit_mob) 14), (mob_count m + mob) :: c :: c :: ds, ip :: rs, m, io, none⟩ :=
      plus_does.code hc rfl (by decide)
    Leads _ ⟨.ram (pos (place .emit_mob) 17), 4 :: (mob_count m + mob) :: c :: c :: ds, ip :: rs, m, io,
      none⟩ := by
        rw [← hex_literals.2.2.1]
        exact hc.lit rfl rfl rfl
    Leads _ ⟨.ram (pos (place .emit_mob) 18), (mob_count m + mob + 4) :: c :: c :: ds, ip :: rs, m, io,
      none⟩ := plus_does.code hc rfl (by decide)
    Leads _ ⟨.ram (pos (place .emit_mob) 19), c :: ds, ip :: rs, _, io, none⟩ :=
      hcstore.code hc rfl (by decide)
    Leads _ ⟨.ram (pos (place .emit_mob) 20), mob :: c :: ds, ip :: rs, _, io, none⟩ :=
      h₁.mob_at (h₁.code .emit_mob) rfl
    Leads _ ⟨.ram (pos (place .emit_mob) 21), c :: ds, ip :: rs, emitted m c, io, none⟩ :=
      hplus.code (h₁.code .emit_mob) rfl (h₁.code .plus_store) rfl
    Leads _ ⟨.ram (pos (place .emit_mob) 22), ds, ip :: rs, emitted m c, io, none⟩ :=
      (h₂.code .emit_mob).label rfl (by decide) rfl
    Leads _ _ := (h₂.code .emit_mob).exits rfl

/-- The base the literals are read in. -/
theorem literal_after_hex : ∃ m', Does .hex m [] [] m' ∧ ∀ s,
    hex_literal s = BitVec.ofNat 32 ((recognised (load32 m' Label.base.storage).toNat s).getD 0) := by
  refine ⟨store32 m Label.base.storage 16, .of_leads rfl fun ip ds rs io => ?_, fun s => ?_⟩
  · calc
      Leads ⟨.rom .hex 0, ds, ip :: rs, m, io, none⟩
        ⟨.rom .hex 1, 16 :: ds, ip :: rs, m, io, none⟩ := run_leads (n := 3) rfl
      Leads _ ⟨.rom .hex 3, ds, ip :: rs, store32 m Label.base.storage 16, io, none⟩ :=
        (Label.Var.of_isVar rfl).set rfl rfl
      Leads _ _ := run_leads (n := 1) rfl
  · rw [load32_store32 _ (by decide)]
    rfl

theorem emit_xt_var : Label.emit_xt.Var := .of_isVar rfl

/-- `output_mob` empties the buffer and directs `emit` to it. -/
theorem output_mob_performs (h : MobWords m place) : ∃ m', Performs (place .output_mob) m [] [] m' ∧
    MobWords m' place ∧ mob_count m' = 0 ∧ Directed m' place := by
  have hc := h.code .output_mob
  have hempty := store32_keeps (m := m) (a := mob) 0 (by decide)
  have hdirect := store32_keeps (m := store32 m mob 0) (a := Label.emit_xt.storage)
    ((xta (place .emit_mob)).setWidth 32) (by decide)
  have hvar : Label.emit_xt.storage.toNat = 68124 := by decide
  have hmob := mob_toNat
  have h₁ : MobWords (store32 m mob 0) place := h.kept hempty fun n hn => .inl hn.1
  have h₂ : MobWords (store32 (store32 m mob 0) Label.emit_xt.storage
      ((xta (place .emit_mob)).setWidth 32)) place := h₁.kept hdirect fun n hn => .inr (by
    have := hn.2
    rw [show bss_end.toNat = 74108 by decide]
    omega)
  refine ⟨_, hc.performs rfl fun ip ds rs io => ?_, h₂, ?_, load32_store32 _ (by decide)⟩
  · calc
      Leads _ ⟨.ram (pos (place .output_mob) 4), 0 :: ds, ip :: rs, m, io, none⟩ := by
        rw [← hex_literals.2.2.2]
        exact hc.lit rfl rfl rfl
      Leads _ ⟨.ram (pos (place .output_mob) 5), mob :: 0 :: ds, ip :: rs, m, io, none⟩ := h.mob_at hc rfl
      Leads _ ⟨.ram (pos (place .output_mob) 6), ds, ip :: rs, store32 m mob 0, io, none⟩ :=
        (store_does mob_access).code hc rfl (by decide)
      Leads _ ⟨.ram (pos (place .output_mob) 8), (xta (place .emit_mob)).setWidth 32 :: ds, ip :: rs,
        store32 m mob 0, io, none⟩ := (h₁.code .output_mob).xtalit rfl rfl
      Leads _ ⟨.ram (pos (place .output_mob) 9), Label.emit_xt.storage ::
        (xta (place .emit_mob)).setWidth 32 :: ds, ip :: rs, store32 m mob 0, io, none⟩ :=
          emit_xt_var.does.code (h₁.code .output_mob) rfl (by decide)
      Leads _ ⟨.ram (pos (place .output_mob) 10), ds, ip :: rs, _, io, none⟩ :=
        (store_does emit_xt_var.ram).code (h₁.code .output_mob) rfl (by decide)
      Leads _ _ := (h₂.code .output_mob).exits rfl
  · refine (hdirect.load32 (by decide) fun n hlo hhi hn => ?_).trans (load32_store32 _ (by decide))
    have := hn.2
    omega

theorem emit_does (h : MobWords m place) (hd : Directed m place) (c : Cell)
    (hk : (mob_count m).toNat ≤ 1000) : Does .emit m [c] [] (emitted m c) := by
  have hstart := (h.code .emit_mob).start_add (i := 0) rfl
  rw [pos_zero] at hstart
  refine .of_leads rfl fun ip ds rs io => ?_
  calc
    Leads ⟨.rom .emit 0, c :: ds, ip :: rs, m, io, none⟩
      ⟨.rom .emit 2, (xta (place .emit_mob)).setWidth 32 :: c :: ds, ip :: rs, m, io, none⟩ := by
        rw [← hd]
        exact emit_xt_var.fetch rfl rfl
    Leads _ ⟨.rom .emit 3, ds, ip :: rs, emitted m c, io, none⟩ :=
      (emit_mob_performs h c hk).execute hstart rfl
    Leads _ _ := run_leads (n := 1) rfl

end Words

-- ---------------------------------------------------------------------------
-- The output of a request
-- ---------------------------------------------------------------------------

/-- The characters of the output as bytes. -/
def output_bytes (cs : List Cell) : List Byte := cs.map (·.setWidth 8)

/-- The buffer holds the output so far. -/
structure Held (m : Memory 32) (place : MobWord → Cell) (out : List Byte) : Prop where
  words : MobWords m place
  directed : Directed m place
  count : (mob_count m).toNat = out.length
  chars : bytes m (mob + 4) out.length = out

/-- The output stays in its part of `mob`, its count saturates at 1000, and the request behind
`mob` is as before. The ARM retrieves the output while it is shorter, and else knows it is not whole. -/
structure Contained (m : Memory 32) (cs : List Cell) (m' : Memory 32) : Prop where
  stays : Keeps (Set.Ico mob.toNat (mob.toNat + 4 + 1000)) m m'
  count : (mob_count m').toNat = min cs.length 1000
  request : bytes m' mib 1024 = bytes m mib 1024
  retrieved : cs.length < 1000 → ∀ (p : Port) (dst : Bytes) (size : Nat), p.mob = mob_buffer m' →
    cs.length ≤ size → ∃ dst' : Bytes, p.retrieveFromScp dst size = (dst', .ok cs.length) ∧
      dst'.take cs.length = output_bytes cs
  overflown : 1000 ≤ cs.length → ∀ (p : Port) (dst : Bytes) (size : Nat), p.mob = mob_buffer m' →
    p.retrieveFromScp dst size = (dst, .error .capacity)

/-- What the SCP stored is the text in the buffer. -/
theorem Held.scpText {place : MobWord → Cell} {m : Memory 32} {out : List Byte} (h : Held m place out) :
    (mob_buffer m).scpText = out := by
  rw [SharedBuffer.scpText, show (mob_buffer m).count = mob_count m from rfl, h.count]
  conv_rhs => rw [← h.chars]
  refine List.ext_getElem? fun i => ?_
  by_cases hi : i < out.length
  · rw [getElem?_bytes hi, List.getElem?_map, List.getElem?_range hi, Option.map_some, scpByte_eq]
    simp [mob_buffer]
  · rw [List.getElem?_eq_none (by simpa using hi), List.getElem?_eq_none (by simpa using hi)]

theorem Held.contained {place : MobWord → Cell} {m m' : Memory 32} {cs : List Cell} (h : Held m' place (output_bytes cs))
    (hkeeps : Keeps (Set.Ico mob.toNat (mob.toNat + 4 + cs.length)) m m') (hlen : cs.length ≤ 1000) :
    Contained m cs m' := by
  have hmob := mob_toNat
  have hmib : mib.toNat = 80896 := by decide
  have hcount : (mob_count m').toNat = cs.length := by rw [h.count, output_bytes, List.length_map]
  have hstays : Keeps (Set.Ico mob.toNat (mob.toNat + 4 + 1000)) m m' := by
    refine hkeeps.mono ?_
    rintro n ⟨_, _⟩
    constructor <;> omega
  refine ⟨hstays, by omega, ?_, fun hshort p dst size hp hsize => ?_, fun hfull p dst size hp => ?_⟩
  · refine hstays.bytes (by omega) fun n hlo hhi hn => ?_
    have := hn.2
    omega
  · have hcount' : p.mob.count.toNat = cs.length := by
      rw [hp]
      exact hcount
    refine ⟨copyFromScp p.mob.chars dst cs.length, ?_, ?_⟩
    · rw [retrieveFromScp_ok p dst (by omega) (by omega), hcount']
    · have htext := take_copyFromScp p.mob dst
      rw [hcount', hp, h.scpText, ← hp] at htext
      exact htext
  · refine retrieveFromScp_saturated p ?_
    rw [hp]
    change 1000 ≤ (mob_count m').toNat
    omega

section Output

variable [Board]

/-- The characters are printed one after the other. -/
inductive Printed : Memory 32 → List Cell → Memory 32 → Prop
  | nil : Printed m [] m
  | cons (h : Does .emit m [c] [] m₁) (hrest : Printed m₁ cs m') : Printed m (c :: cs) m'

theorem Printed.unique {cs : List Cell} {m m₁ m₂ : Memory 32} (h : Printed m cs m₁)
    (h' : Printed m cs m₂) : m₁ = m₂ := by
  induction h with
  | nil => cases h' with | nil => rfl
  | cons hd hrest ih =>
    cases h' with
    | cons hd' hrest' =>
      obtain ⟨-, rfl⟩ := hd.unique hd'
      exact ih hrest'

variable [Sram] {place : MobWord → Cell}

theorem Held.emit {m : Memory 32} {out : List Byte} (h : Held m place out) (hout : out.length ≤ 1000)
    (c : Cell) : ∃ m', Does .emit m [c] [] m' ∧ Held m' place (out ++ [c.setWidth 8]) ∧
      Keeps (Set.Ico mob.toNat (mob.toNat + 4 + (out.length + 1))) m m' := by
  have hk : (mob_count m).toNat ≤ 1000 := h.count.symm ▸ hout
  have hmob := mob_toNat
  have hkeeps := emitted_keeps (m := m) (c := c) hk
  rw [h.count] at hkeeps
  have hadd := char_addr_toNat hk
  rw [h.count] at hadd
  have haddr : mob_count m + mob + 4 = mob + 4 + BitVec.ofNat 32 out.length := by
    apply BitVec.eq_of_toNat_eq
    rw [hadd, toNat_add_ofNat (by rw [show (mob + 4).toNat = 79876 by decide]; omega),
      show (mob + 4).toNat = 79876 by decide]
    omega
  have hvar : Label.emit_xt.storage.toNat = 68124 := by decide
  have hcount : Keeps (Set.Ico mob.toNat (mob.toNat + 4))
    (store8 m (mob_count m + mob + 4) (c.setWidth 8)) (emitted m c) := store32_keeps _ (by decide)
  have hchar := store8_keeps (m := m) (a := mob_count m + mob + 4) (c.setWidth 8)
  rw [hadd] at hchar
  have hfour : (mob + 4).toNat = mob.toNat + 4 := by decide
  refine ⟨emitted m c, emit_does h.words h.directed c hk, ⟨?_, ?_, ?_, ?_⟩, hkeeps⟩
  · exact h.words.kept hkeeps fun n hn => .inl hn.1
  · rw [Directed, Label.kept hkeeps (by decide), h.directed]
    intro n hn hmem
    have := hn.1
    have := hmem.2
    omega
  · rw [mob_count, emitted, load32_store32 _ (by decide), List.length_append, ← h.count]
    exact toNat_add_ofNat (n := 1) (by omega)
  · rw [List.length_append, List.length_singleton, bytes_add]
    refine congrArg₂ (· ++ ·) ?_ ?_
    · rw [hcount.bytes (by omega), hchar.bytes (by omega), h.chars]
      · intro n hlo hhi hn
        have := hn.1
        omega
      · intro n hlo hhi hn
        have := hn.2
        omega
    · rw [hcount.bytes (by rw [← haddr, hadd]; omega), ← haddr, bytes_store8]
      intro n hlo hhi hn
      have := hn.2
      rw [← haddr, hadd] at hlo
      omega

/-- One character too many is still stored. -/
theorem Held.print {m : Memory 32} {out : List Byte} (h : Held m place out) (cs : List Cell)
    (hlen : out.length + cs.length ≤ 1001) : ∃ m', Printed m cs m' ∧ Held m' place (out ++ output_bytes cs) ∧
      Keeps (Set.Ico mob.toNat (mob.toNat + 4 + (out.length + cs.length))) m m' := by
  induction cs generalizing m out with
  | nil => exact ⟨m, .nil, by simpa [output_bytes] using h, .refl⟩
  | cons c cs ih =>
    rw [List.length_cons] at hlen
    obtain ⟨m₁, hdoes, hheld, hkeeps⟩ := h.emit (by omega) c
    obtain ⟨m', hprinted, hheld', hkeeps'⟩ := ih hheld (by
      rw [List.length_append, List.length_singleton]
      omega)
    refine ⟨m', .cons hdoes hprinted, ?_, (hkeeps.union hkeeps').mono ?_⟩
    · rw [List.append_assoc] at hheld'
      exact hheld'
    · rw [List.length_append, List.length_singleton, List.length_cons]
      rintro n (⟨_, _⟩ | ⟨_, _⟩) <;> constructor <;> omega

/-- The count of one character too many shows that it was stored. -/
theorem Held.leaves {m : Memory 32} (h : Held m place []) {cs : List Cell} (hlong : 1000 < cs.length) :
    ¬ ∀ pre, pre <+: cs → ∃ m', Printed m pre m' ∧ Contained m pre m' := by
  intro hcontained
  have htake : (cs.take 1001).length = 1001 := by
    rw [List.length_take]
    omega
  obtain ⟨m', hprinted, hin⟩ := hcontained (cs.take 1001) (List.take_prefix _ _)
  obtain ⟨m'', hprinted', hheld', -⟩ := h.print (cs.take 1001) (by rw [htake]; decide)
  obtain rfl := hprinted.unique hprinted'
  have hcount := hin.count
  rw [hheld'.count, List.nil_append, output_bytes, List.length_map, htake] at hcount
  exact absurd hcount (by decide)

/-- After `output_mob`, whatever is printed stays in the buffer as long as it is no more than
1000 characters: the next one is stored as well. The literals are those read behind `hex`. -/
theorem output_contained_iff {m : Memory 32} (h : MobWords m place) :
    (∃ m', Does .hex m [] [] m' ∧ ∀ s,
      hex_literal s = BitVec.ofNat 32 ((recognised (load32 m' Label.base.storage).toNat s).getD 0)) ∧
    ∃ m₀, Performs (place .output_mob) m [] [] m₀ ∧ ∀ cs : List Cell,
      (∀ pre, pre <+: cs → ∃ m', Printed m₀ pre m' ∧ Contained m₀ pre m') ↔ cs.length ≤ 1000 := by
  obtain ⟨m₀, hperforms, hwords, hcount, hdirected⟩ := output_mob_performs h
  have hheld : Held m₀ place [] := ⟨hwords, hdirected, by rw [hcount]; rfl, rfl⟩
  refine ⟨literal_after_hex, m₀, hperforms, fun cs => ⟨fun hcontained => ?_, fun hlen pre hpre => ?_⟩⟩
  · by_contra hlong
    exact hheld.leaves (by omega) hcontained
  · have hle := hpre.length_le
    obtain ⟨m', hprinted, hheld', hkeeps⟩ := hheld.print pre (by
      rw [List.length_nil]
      omega)
    rw [List.length_nil, Nat.zero_add] at hkeeps
    exact ⟨m', hprinted, hheld'.contained hkeeps (by omega)⟩

end Output

namespace Output

local instance : Board := .flat
local instance : Sram := .flat

/-- One word behind the other. -/
def place : MobWord → Cell
  | .plus_store => 0x13000 | .mob => 0x13020 | .emit_mob => 0x13040 | .output_mob => 0x13080

def segments : List (Cell × List Byte) :=
  [.plus_store, .mob, .emit_mob, .output_mob].map fun w => (place w, (w.code place).flatMap bytes16)

def compiled : Memory 32 := load (fun _ => 0) segments

theorem mobWords_compiled : MobWords compiled place := by
  have hascend : segments.Pairwise fun s t => s.1.toNat + s.2.length ≤ t.1.toNat := by decide +kernel
  have hfit : ∀ s ∈ segments, s.1.toNat + s.2.length ≤ 2 ^ 32 := by decide +kernel
  refine ⟨fun w => ?_, fun w => by cases w <;> decide +kernel⟩
  have hmem : (place w, (w.code place).flatMap bytes16) ∈ segments :=
    List.mem_map.mpr ⟨w, by cases w <;> decide, rfl⟩
  have himage := bytes_load (m := fun _ => 0) hascend hfit hmem
  cases w <;> exact ⟨by decide, by decide, by decide, himage⟩

/-- Two characters arrive. -/
theorem short_output_contained : ∃ m₀, Performs (place .output_mob) compiled [] [] m₀ ∧
    ∃ m', Printed m₀ [0x6f, 0x6b] m' ∧ Contained m₀ [0x6f, 0x6b] m' := by
  obtain ⟨-, m₀, hperforms, hiff⟩ := output_contained_iff mobWords_compiled
  exact ⟨m₀, hperforms, (hiff [0x6f, 0x6b]).mpr (by decide) _ (List.prefix_refl _)⟩

def long_output : List Cell := List.replicate 1001 0x2e

/-- Of 1001 dots, the last one is stored behind the part of the output. -/
theorem long_output_leaves : ∃ m₀, Performs (place .output_mob) compiled [] [] m₀ ∧
    (∃ m', Printed m₀ long_output m' ∧ (mob_count m').toNat = 1001) ∧
    ¬ ∀ pre, pre <+: long_output → ∃ m', Printed m₀ pre m' ∧ Contained m₀ pre m' := by
  obtain ⟨m₀, hperforms, hwords, hcount, hdirected⟩ := output_mob_performs mobWords_compiled
  have hheld : Held m₀ place [] := ⟨hwords, hdirected, by rw [hcount]; rfl, rfl⟩
  have hlen : long_output.length = 1001 := List.length_replicate ..
  obtain ⟨m', hprinted, hheld', -⟩ := hheld.print long_output (by rw [hlen]; decide)
  refine ⟨m₀, hperforms, ⟨m', hprinted, ?_⟩, hheld.leaves (by rw [hlen]; decide)⟩
  rw [hheld'.count, List.nil_append, output_bytes, List.length_map, hlen]

end Output

end Allwinner.Scp
