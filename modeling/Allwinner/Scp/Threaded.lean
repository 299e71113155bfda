import Allwinner.Scp.Arithmetic

/-!
# Threaded code in memory

What the compiler leaves in the dictionary: the code field of `_dolist` and behind it half
words, each an execution token or the operand of the token before it.
-/

namespace Allwinner.Scp

open Library Memory
open Forth hiding ip ds rs mem io jump one two

/-- An address as threaded code holds it. -/
def xta (a : Cell) : Half := (a - start).setWidth 16

/-- The half word `i` of the code at `a`. -/
def pos (a : Cell) (i : Nat) : Cell := a + BitVec.ofNat 32 (2 * i)

theorem pos_zero (a : Cell) : pos a 0 = a := BitVec.add_zero a

theorem pos_succ (a : Cell) (i : Nat) : pos a i + 2 = pos a (i + 1) := by
  rw [pos, pos, Nat.mul_add, BitVec.ofNat_add, BitVec.add_assoc]
  rfl

theorem start_add_xta (hlo : start.toNat ≤ a.toNat) (hhi : a.toNat < 0x20000) :
    start + (xta a).setWidth 32 = a := by
  rw [show start.toNat = 65536 by decide] at hlo
  apply BitVec.eq_of_toNat_eq
  unfold xta
  rw [BitVec.toNat_add, BitVec.toNat_setWidth, BitVec.toNat_setWidth, BitVec.toNat_sub,
    show start.toNat = 65536 by decide]
  have := a.isLt
  omega

/-- `dolit` puts its operands together. -/
theorem halves_or (v : Cell) :
    (v.extractLsb' 16 16).setWidth 32 <<< 16 ||| (v.extractLsb' 0 16).setWidth 32 = v := by
  apply BitVec.eq_of_getLsbD_eq
  intro i hi
  rw [BitVec.getLsbD_or, BitVec.getLsbD_shiftLeft, BitVec.getLsbD_setWidth, BitVec.getLsbD_setWidth,
    BitVec.getLsbD_extractLsb', BitVec.getLsbD_extractLsb']
  by_cases h : i < 16
  · simp [h, hi]
  · have hsum : 16 + (i - 16) = i := Nat.add_sub_cancel' (Nat.le_of_not_lt h)
    have hhigh : i - 16 < 16 := by omega
    have hlow : i - 16 < 32 := by omega
    simp [h, hi, hsum, hhigh, hlow]

theorem take_flatMap_bytes16 {hs : List Half} (hi : hs[i]? = some x) :
    ((hs.flatMap bytes16).drop (2 * i)).take 2 = bytes16 x := by
  induction hs generalizing i with
  | nil => cases hi
  | cons y hs ih =>
    cases i with
    | zero =>
      cases hi
      rfl
    | succ i => exact ih hi

/-- The half words `hs` are the code at `a`, behind the static dictionary. -/
structure Code (m : Memory 32) (a : Cell) (hs : List Half) : Prop where
  aligned : a.toNat % 2 = 0
  low : bss_end.toNat ≤ a.toNat
  high : a.toNat + 2 * hs.length ≤ sram_hi
  image : bytes m a (2 * hs.length) = hs.flatMap bytes16

namespace Code

variable {m : Memory 32} {a : Cell} {hs : List Half}

theorem pos_toNat (h : Code m a hs) (hi : i ≤ hs.length) : (pos a i).toNat = a.toNat + 2 * i := by
  have := h.high
  unfold sram_hi at this
  exact toNat_add_ofNat (by omega)

theorem start_add (h : Code m a hs) (hi : hs[i]? = some x) :
    start + (xta (pos a i)).setWidth 32 = pos a i := by
  obtain ⟨hlt, -⟩ := List.getElem?_eq_some_iff.mp hi
  have hpos := h.pos_toNat (Nat.le_of_lt hlt)
  have hlow := h.low
  have hhigh := h.high
  rw [show bss_end.toNat = 74108 by decide] at hlow
  unfold sram_hi at hhigh
  exact start_add_xta (by rw [hpos, show start.toNat = 65536 by decide]; omega) (by omega)

theorem half (h : Code m a hs) (hi : hs[i]? = some x) : load16 m (pos a i) = x := by
  obtain ⟨hlt, -⟩ := List.getElem?_eq_some_iff.mp hi
  refine load16_of_bytes ?_
  rw [← take_flatMap_bytes16 hi, ← h.image, bytes_drop (by omega), bytes_take (by omega)]
  rfl

theorem spot (h : Code m a hs) (hi : i < hs.length) : Spot 2 (pos a i) := by
  have hpos := h.pos_toNat (Nat.le_of_lt hi)
  have haligned := h.aligned
  have hlow := h.low
  have hhigh := h.high
  rw [show bss_end.toNat = 74108 by decide] at hlow
  exact ⟨by omega, .behind (by omega) (by omega)⟩

theorem storable [Board] [Sram] (h : Code m a hs) (hi : i < hs.length) : store_access 2 (pos a i) = .ram := by
  have hpos := h.pos_toNat (Nat.le_of_lt hi)
  have hlow := h.low
  rw [show bss_end.toNat = 74108 by decide] at hlow
  exact store_access_ram (h.spot hi).half
    (fixed_eq_false (by rw [hpos, show rstack_lo.toNat = 73468 by decide]; omega))

theorem kept (h : Code m a hs) (hkeeps : Keeps W m m')
    (hW : ∀ n ∈ W, ¬ (a.toNat ≤ n ∧ n < a.toNat + 2 * hs.length)) : Code m' a hs := by
  have hhigh := h.high
  unfold sram_hi at hhigh
  refine ⟨h.aligned, h.low, h.high, (hkeeps.bytes (by omega) fun n hlo hhi hn => ?_).trans h.image⟩
  exact hW n hn ⟨hlo, hhi⟩

end Code

/-- Behind the firmware there is no execution token of it. -/
theorem ofAddr?_eq_none (ha : bss_end.toNat ≤ a.toNat) : Label.ofAddr? a = none := by
  have hbelow : ∀ l ∈ Label.all.drop 8, l.addr.toNat < bss_end.toNat := by decide +kernel
  refine List.find?_eq_none.mpr fun l hl heq => ?_
  have := hbelow l hl
  rw [beq_iff_eq.mp heq] at this
  omega

section Words

variable [Board]

/-- `Does` for the execution token of any word. -/
def Performs (x : Cell) (m : Memory 32) (pre post : List Cell) (m' : Memory 32) : Prop :=
  ∀ ip ds rs io, ∃ t, enter false x ⟨ip, pre ++ ds, rs, m, io, none⟩ = .on t ∧
    Leads t ⟨ip, post ++ ds, rs, m', io, none⟩

theorem Does.performs (h : Does l m pre post m') (hl : l ∈ Label.all.drop 8) :
    Performs l.addr m pre post m' := by
  intro ip ds rs io
  obtain ⟨t, ht, hleads⟩ := h ip ds rs io
  exact ⟨t, by simpa only [enter, Label.ofAddr?_addr hl] using ht, hleads⟩

/-- A word that `execute` or the interpreter runs. -/
theorem Performs.leads (h : Performs x m pre post m') (ip : Ip) (ds : List Cell) (rs : List Ip)
    (io : Io) : Leads ⟨ip, pre ++ ds, rs, m, io, some x⟩ ⟨ip, post ++ ds, rs, m', io, none⟩ := by
  obtain ⟨t, ht, hleads⟩ := h ip ds rs io
  exact .head ht hleads

/-- `Performs`, and on stacks of the size the firmware has the word comes back the same way or one of
them overflows. -/
structure Fulfils (x : Cell) (m : Memory 32) (pre post : List Cell) (m' : Memory 32) : Prop where
  performs : Performs x m pre post m'
  ends : ∀ ip ds rs io, Ends ⟨ip, pre ++ ds, rs, m, io, some x⟩ ⟨ip, post ++ ds, rs, m', io, none⟩

theorem Performs.fulfils (h : Performs x m pre post m') : Fulfils x m pre post m' :=
  ⟨h, fun ip ds rs io => (h.leads ip ds rs io).ends⟩

/-- The word through the execution token on the stack. -/
theorem Performs.execute {x v : Cell} (h : Performs x m pre post m') (hx : start + v = x) {w : Label}
    {k : Nat} (hk : w.list[k]? = some (.xt .execute)) {ds : List Cell} {rs : List Ip} {io : Io} :
    Leads ⟨.rom w k, v :: (pre ++ ds), rs, m, io, none⟩ ⟨.rom w (k + 1), post ++ ds, rs, m', io, none⟩ := by
  refine .head (b := ⟨.rom w (k + 1), pre ++ ds, rs, m, io, some x⟩) ?_ (h.leads ..)
  simp [Steps, act, hk, token, call, Label.prim?, Prim.turn, Forth.one, hx]

variable [Sram]

namespace Code

variable {m : Memory 32} {a : Cell} {hs : List Half} {ds : List Cell} {rs : List Ip} {io : Io}

/-- The token `x` of the code, up to what its code field does. -/
theorem token_steps (h : Code m a hs) (hi : hs[i]? = some x) {t : Forth}
    (henter : enter false (start + x.setWidth 32) ⟨.ram (pos a (i + 1)), ds, rs, m, io, none⟩ = .on t) :
    Steps ⟨.ram (pos a i), ds, rs, m, io, none⟩ t := by
  obtain ⟨hlt, -⟩ := List.getElem?_eq_some_iff.mp hi
  simp only [Steps, act, fetch, (h.spot hlt).half, h.half hi, pos_succ]
  exact henter

theorem token (h : Code m a hs) (hi : hs[i]? = some x) {t : Forth}
    (henter : enter false (start + x.setWidth 32) ⟨.ram (pos a (i + 1)), ds, rs, m, io, none⟩ = .on t) :
    Leads ⟨.ram (pos a i), ds, rs, m, io, none⟩ t := .single (h.token_steps hi henter)

/-- A token of the firmware. -/
theorem label_steps {l : Label} (h : Code m a hs) (hi : hs[i]? = some l.offset) (hl : l ∈ Label.all.drop 8)
    {t : Forth} (hcall : call false l ⟨.ram (pos a (i + 1)), ds, rs, m, io, none⟩ = .on t) :
    Steps ⟨.ram (pos a i), ds, rs, m, io, none⟩ t := by
  refine h.token_steps hi ?_
  have haddr : start + l.offset.setWidth 32 = l.addr := rfl
  rw [haddr, enter, Label.ofAddr?_addr hl]
  exact hcall

theorem label {l : Label} (h : Code m a hs) (hi : hs[i]? = some l.offset) (hl : l ∈ Label.all.drop 8)
    {t : Forth} (hcall : call false l ⟨.ram (pos a (i + 1)), ds, rs, m, io, none⟩ = .on t) :
    Leads ⟨.ram (pos a i), ds, rs, m, io, none⟩ t := .single (h.label_steps hi hl hcall)

/-- A half word behind a token. -/
theorem operand_eq (h : Code m a hs) (hi : hs[i]? = some x) (use : Cell → Forth → Turn) :
    operand ⟨.ram (pos a i), ds, rs, m, io, none⟩ use =
      use (x.setWidth 32) ⟨.ram (pos a (i + 1)), ds, rs, m, io, none⟩ := by
  obtain ⟨hlt, -⟩ := List.getElem?_eq_some_iff.mp hi
  simp only [operand, fetch, (h.spot hlt).half, h.half hi, pos_succ]

theorem lit_steps (h : Code m a hs) (hi : hs[i]? = some Label.dolit.offset)
    (hhigh : hs[i + 1]? = some (v.extractLsb' 16 16)) (hlow : hs[i + 2]? = some (v.extractLsb' 0 16)) :
    Steps ⟨.ram (pos a i), ds, rs, m, io, none⟩ ⟨.ram (pos a (i + 3)), v :: ds, rs, m, io, none⟩ := by
  refine h.label_steps hi (by decide) ?_
  simp only [call, Label.prim?, Prim.turn]
  rw [h.operand_eq hhigh, h.operand_eq hlow, halves_or]
  rfl

theorem lit (h : Code m a hs) (hi : hs[i]? = some Label.dolit.offset)
    (hhigh : hs[i + 1]? = some (v.extractLsb' 16 16)) (hlow : hs[i + 2]? = some (v.extractLsb' 0 16)) :
    Leads ⟨.ram (pos a i), ds, rs, m, io, none⟩ ⟨.ram (pos a (i + 3)), v :: ds, rs, m, io, none⟩ :=
  .single (h.lit_steps hi hhigh hlow)

theorem branch_steps {j : Nat} (h : Code m a hs) (hi : hs[i]? = some Label.branch.offset)
    (hto : hs[i + 1]? = some (xta (pos a j))) (hj : hs[j]? = some x) :
    Steps ⟨.ram (pos a i), ds, rs, m, io, none⟩ ⟨.ram (pos a j), ds, rs, m, io, none⟩ := by
  refine h.label_steps hi (by decide) ?_
  simp only [call, Label.prim?, Prim.turn]
  rw [h.operand_eq hto, h.start_add hj]

theorem branch {j : Nat} (h : Code m a hs) (hi : hs[i]? = some Label.branch.offset)
    (hto : hs[i + 1]? = some (xta (pos a j))) (hj : hs[j]? = some x) :
    Leads ⟨.ram (pos a i), ds, rs, m, io, none⟩ ⟨.ram (pos a j), ds, rs, m, io, none⟩ :=
  .single (h.branch_steps hi hto hj)

theorem qbranch_taken_steps {j : Nat} (h : Code m a hs) (hi : hs[i]? = some Label.qbranch.offset)
    (hto : hs[i + 1]? = some (xta (pos a j))) (hj : hs[j]? = some x) :
    Steps ⟨.ram (pos a i), 0 :: ds, rs, m, io, none⟩ ⟨.ram (pos a j), ds, rs, m, io, none⟩ := by
  refine h.label_steps hi (by decide) ?_
  simp only [call, Label.prim?, Prim.turn, Forth.one]
  rw [h.operand_eq hto, h.start_add hj]
  rfl

theorem qbranch_passed_steps (h : Code m a hs) (hi : hs[i]? = some Label.qbranch.offset)
    (hto : hs[i + 1]? = some x) (hc : c ≠ 0) :
    Steps ⟨.ram (pos a i), c :: ds, rs, m, io, none⟩ ⟨.ram (pos a (i + 2)), ds, rs, m, io, none⟩ := by
  refine h.label_steps hi (by decide) ?_
  simp only [call, Label.prim?, Prim.turn, Forth.one]
  rw [h.operand_eq hto, if_neg hc]

theorem qbranch_passed (h : Code m a hs) (hi : hs[i]? = some Label.qbranch.offset)
    (hto : hs[i + 1]? = some x) (hc : c ≠ 0) :
    Leads ⟨.ram (pos a i), c :: ds, rs, m, io, none⟩ ⟨.ram (pos a (i + 2)), ds, rs, m, io, none⟩ :=
  .single (h.qbranch_passed_steps hi hto hc)

theorem xtalit (h : Code m a hs) (hi : hs[i]? = some Label.xtalit.offset) (hx : hs[i + 1]? = some x) :
    Leads ⟨.ram (pos a i), ds, rs, m, io, none⟩
      ⟨.ram (pos a (i + 2)), x.setWidth 32 :: ds, rs, m, io, none⟩ := by
  refine h.label hi (by decide) ?_
  simp only [call, Label.prim?, Prim.turn]
  rw [h.operand_eq hx]
  rfl

theorem next_taken_steps {j : Nat} {r : Ip} (h : Code m a hs) (hi : hs[i]? = some Label.next.offset)
    (hto : hs[i + 1]? = some (xta (pos a j))) (hj : hs[j]? = some x) (hr : r.addr ≠ 0) :
    Steps ⟨.ram (pos a i), ds, r :: rs, m, io, none⟩
      ⟨.ram (pos a j), ds, .ram (r.addr - 1) :: rs, m, io, none⟩ := by
  refine h.label_steps hi (by decide) ?_
  simp only [call, Label.prim?, Prim.turn, oner, if_neg hr]
  rw [h.operand_eq hto, h.start_add hj]

theorem next_taken {j : Nat} {r : Ip} (h : Code m a hs) (hi : hs[i]? = some Label.next.offset)
    (hto : hs[i + 1]? = some (xta (pos a j))) (hj : hs[j]? = some x) (hr : r.addr ≠ 0) :
    Leads ⟨.ram (pos a i), ds, r :: rs, m, io, none⟩
      ⟨.ram (pos a j), ds, .ram (r.addr - 1) :: rs, m, io, none⟩ :=
  .single (h.next_taken_steps hi hto hj hr)

theorem next_passed_steps {r : Ip} (h : Code m a hs) (hi : hs[i]? = some Label.next.offset)
    (hr : r.addr = 0) :
    Steps ⟨.ram (pos a i), ds, r :: rs, m, io, none⟩ ⟨.ram (pos a (i + 2)), ds, rs, m, io, none⟩ := by
  refine h.label_steps hi (by decide) ?_
  simp only [call, Label.prim?, Prim.turn, oner, pos_succ, if_pos hr]

theorem next_passed {r : Ip} (h : Code m a hs) (hi : hs[i]? = some Label.next.offset) (hr : r.addr = 0) :
    Leads ⟨.ram (pos a i), ds, r :: rs, m, io, none⟩
      ⟨.ram (pos a (i + 2)), ds, rs, m, io, none⟩ := .single (h.next_passed_steps hi hr)

theorem exits (h : Code m a hs) (hi : hs[i]? = some Label.exit.offset) :
    Leads ⟨.ram (pos a i), ds, ip :: rs, m, io, none⟩ ⟨ip, ds, rs, m, io, none⟩ :=
  h.label hi (by decide) rfl

/-- Executed, the list at `a` starts behind its code field. -/
theorem enters (h : Code m a hs) (hi : hs[0]? = some (Prim.code .dolist)) :
    enter false a ⟨ip, ds, rs, m, io, none⟩ = .on ⟨.ram (pos a 1), ds, ip :: rs, m, io, none⟩ := by
  obtain ⟨hlt, -⟩ := List.getElem?_eq_some_iff.mp hi
  have hspot := h.spot hlt
  have hhalf := h.half hi
  rw [pos_zero] at hspot hhalf
  have hcode : Prim.ofCode (Prim.code .dolist) = some .dolist := by decide
  simp only [enter, ofAddr?_eq_none h.low, fetch, hspot.half, hhalf, hcode, Prim.turn, dolist]
  rfl

/-- The word of the list at `a`. -/
theorem performs (h : Code m a hs) (hi : hs[0]? = some (Prim.code .dolist))
    (hleads : ∀ ip ds rs io, Leads ⟨.ram (pos a 1), pre ++ ds, ip :: rs, m, io, none⟩
      ⟨ip, post ++ ds, rs, m', io, none⟩) : Performs a m pre post m' :=
  fun ip ds rs io => ⟨_, h.enters hi, hleads ip ds rs io⟩

end Code

theorem Does.code {l : Label} (h : Does l m pre post m') (hc : Code m a hs)
    (hi : hs[i]? = some l.offset) (hl : l ∈ Label.all.drop 8) :
    Leads ⟨.ram (pos a i), pre ++ ds, rs, m, io, none⟩
      ⟨.ram (pos a (i + 1)), post ++ ds, rs, m', io, none⟩ := by
  obtain ⟨t, ht, hleads⟩ := h (.ram (pos a (i + 1))) ds rs io
  exact (hc.label hi hl ht).trans hleads

/-- One list of the dictionary calls another. -/
theorem Performs.code {b : Cell} (h : Performs b m pre post m') (hc : Code m a hs)
    (hi : hs[i]? = some (xta b)) (hb : Code m b ks) (hks : ks[0]? = some x) :
    Leads ⟨.ram (pos a i), pre ++ ds, rs, m, io, none⟩
      ⟨.ram (pos a (i + 1)), post ++ ds, rs, m', io, none⟩ := by
  obtain ⟨t, ht, hleads⟩ := h (.ram (pos a (i + 1))) ds rs io
  refine (hc.token hi ?_).trans hleads
  have hstart := hb.start_add hks
  rw [pos_zero] at hstart
  rw [hstart]
  exact ht

end Words

end Allwinner.Scp
