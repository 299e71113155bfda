import Allwinner.Scp.Primitives
import Mathlib.Tactic.IntervalCases

/-!
# The token machine on the registers

A step of the token machine that does not run wild is a step of the register machine, or none at a mark, and
so is every run.
-/

namespace Allwinner.Scp

open Library Memory

-- ---------------------------------------------------------------------------
-- A step
-- ---------------------------------------------------------------------------

namespace Cpu

variable [Board] {c : Cpu} {s : Forth}

/-- One step of the registers, with some answers of the devices, does what the token machine does. -/
def Mirrors (c : Cpu) (t : Turn) : Prop :=
  t ≠ .wild → ∃ inputs, (∀ s', t = .on s' → (c.step inputs).Shows s') ∧
    ∀ f s', t = .fault f s' → (c.step inputs).Shows (s'.recover f)

omit [Board] in
theorem list_addr (f : Fault) : f.list = (Ip.rom f.label 0).addr := by cases f <;> decide

omit [Board] in
theorem Backs.recovered (h : c.Backs s) (f : Fault) : (c.recover f).Shows (s.recover f) :=
  ⟨⟨h.alike, h.lists⟩, list_addr f, rfl, rfl, rfl, ⟨Nat.zero_le _, Nat.zero_le _⟩,
    (fun _ h => by cases h), trivial,
    trivial⟩

/-- A primitive that was fetched. -/
theorem mirrors_prim {p : Prim} {r1 : Cell} {t : Turn} (hfetch : ∀ inputs, (c.begin inputs).fetch = .prim p r1)
    (h : ∃ inputs, Follows (p.exec r1) (c.begin inputs).advance t) : Mirrors c t := by
  intro hwild
  obtain ⟨inputs, hfollows⟩ := h
  refine ⟨inputs, ?_⟩
  have hstep : c.step inputs = settle (p.exec r1 (c.begin inputs).advance) := by
    simp only [step, hfetch]
  have hrun := hfollows hwild
  unfold wp at hrun
  rw [hstep]
  cases hexec : p.exec r1 (c.begin inputs).advance with
  | ok u c' =>
    rw [hexec] at hrun
    obtain ⟨s', rfl, hs'⟩ := hrun
    refine ⟨fun s'' heq => ?_, fun f s'' heq => by cases heq⟩
    cases heq
    exact hs'
  | error f c' =>
    rw [hexec] at hrun
    obtain ⟨s', rfl, hs'⟩ := hrun
    refine ⟨(fun s'' heq => by cases heq), fun f' s'' heq => ?_⟩
    cases heq
    exact hs'.recovered f

theorem mirrors_fault {f : Fault} (hfetch : ∀ inputs, (c.begin inputs).fetch = .fault f) (h : c.Backs s) :
    Mirrors c (.fault f s) := by
  intro _
  refine ⟨[], (fun s' heq => by cases heq), fun f' s' heq => ?_⟩
  cases heq
  rw [step]
  simp only [hfetch]
  exact Backs.recovered (c := c.begin []) ⟨h.alike, h.lists⟩ f

omit [Board] in
/-- Past the token. -/
theorem Shows.advanced (h : c.Shows s) (inputs : List Cell) {ip : Ip}
    (hip : ip.addr = if s.jump.isSome then s.ip.addr else s.ip.addr + XTA_BYTES) :
    (c.begin inputs).advance.Shows { s with ip, jump := none } := by
  have hgoes := (((h.with_io inputs s.io).with_pushed []).goes ip).with_jump none
  rw [hip, ← h.jump, ← h.r10] at hgoes
  exact hgoes

theorem codeAt_ram {a : Cell} (h : access 2 a = .ram) : c.codeAt a = .ok (load16 c.mem a) := by
  obtain ⟨haligned, hram, -⟩ := access_eq_ram.mp h
  rw [codeAt, if_neg (not_not_intro haligned), if_pos hram]

theorem codeAt_fails {a : Cell} {f : Fault} (h : access 2 a = .fails f) : c.codeAt a = .error (some f) := by
  unfold access at h
  unfold codeAt
  split_ifs at h with haligned hram _ hdevice <;> cases h
  · rw [if_pos haligned]
  · rw [if_neg haligned, if_neg hram, if_neg hdevice]

theorem fetch_prim {p : Prim} {r1 : Cell} {r2 : Half} (htoken : c.token = .ok r1) (hcode : c.codeAt r1 = .ok r2)
    (hp : Prim.ofCode r2 = some p) : c.fetch = .prim p r1 := by
  simp [fetch, htoken, hcode, hp, Except.bind, Except.map]

theorem fetch_fails {f : Fault}
    (h : c.token = .error (some f) ∨ ∃ r1, c.token = .ok r1 ∧ c.codeAt r1 = .error (some f)) :
    c.fetch = .fault f := by
  obtain h | ⟨r1, htoken, hcode⟩ := h
  · simp [fetch, h, Except.bind]
  · simp [fetch, htoken, hcode, Except.bind, Except.map]

omit [Board] in
theorem ofCode_code (p : Prim) : Prim.ofCode p.code = some p := by cases p <;> decide

variable [Sram]

/-- A code field can be read. -/
theorem code_access (l : Label) : access 2 l.addr = .ram := by
  obtain ⟨haligned, hlow, hhigh, -⟩ := Label.list_placed l l.mem_all
  refine Spot.half ⟨haligned, hlow, ?_, .inl (by omega)⟩
  rw [rstack_lo_toNat] at hhigh
  unfold sram_hi
  omega

/-- A word of the firmware is called. -/
theorem call_mirrors {l : Label} (hl : l ∈ Label.all.drop 8)
    (htoken : ∀ inputs, (c.begin inputs).token = .ok l.addr)
    (h : ∀ inputs, (c.begin inputs).advance.Shows s) : Mirrors c (s.call true l) := by
  have hcode (inputs : List Cell) : (c.begin inputs).codeAt l.addr = .ok l.code := by
    rw [codeAt_ram (code_access l)]
    exact congrArg _ (((h []).alike.half (code_access l)).trans ((h []).lists.code l hl))
  unfold Forth.call
  cases hprim : l.prim? with
  | none =>
    rw [Label.code, hprim] at hcode
    exact mirrors_prim (fun inputs => fetch_prim (htoken inputs) (hcode inputs) (ofCode_code .dolist))
      ⟨[], Prim.dolist_follows (h []) l.addr (BitVec.add_zero _)⟩
  | some p =>
    rw [Label.code, hprim] at hcode
    exact mirrors_prim (fun inputs => fetch_prim (htoken inputs) (hcode inputs) (ofCode_code p))
      (Prim.exec_follows (h []) l.addr p)

/-- A token is entered through its code field. -/
theorem enter_mirrors {r1 : Cell} (htoken : ∀ inputs, (c.begin inputs).token = .ok r1)
    (h : ∀ inputs, (c.begin inputs).advance.Shows s) : Mirrors c (s.enter true r1) := by
  unfold Forth.enter
  cases hlabel : Label.ofAddr? r1 with
  | some l =>
    obtain rfl : l.addr = r1 := by simpa using List.find?_some hlabel
    exact call_mirrors (List.mem_of_find?_eq_some hlabel) htoken h
  | none =>
    intro hwild
    revert hwild
    show Mirrors c _
    unfold Scp.fetch
    cases haccess : access 2 r1 with
    | ram =>
      have hcode (inputs : List Cell) : (c.begin inputs).codeAt r1 = .ok (load16 s.mem r1) := by
        rw [codeAt_ram haccess]
        exact congrArg _ ((h []).alike.half haccess)
      dsimp only
      cases hp : Prim.ofCode (load16 s.mem r1) with
      | none => exact fun hwild => absurd rfl hwild
      | some p =>
        exact mirrors_prim (fun inputs => fetch_prim (htoken inputs) (hcode inputs) hp) (Prim.exec_follows (h []) r1 p)
    | hidden | device => exact fun hwild => absurd rfl hwild
    | fails f =>
      exact mirrors_fault (fun inputs => fetch_fails (.inr ⟨r1, htoken inputs, codeAt_fails haccess⟩))
        ⟨(h []).alike, (h []).lists⟩

/-- Threaded code in the dictionary. -/
theorem ram_mirrors {a : Cell} (h : c.Shows s) (hjump : s.jump = none) (hip : s.ip = .ram a) :
    Mirrors c (s.act true) := by
  have hr10 : c.r10 = a := by
    rw [h.r10, hip]
    rfl
  have htoken (inputs : List Cell) : (c.begin inputs).token = (c.codeAt a).map fun x => start + x.setWidth 32 := by
    have hnone : (c.begin inputs).jump = none := h.jump.trans hjump
    rw [token, hnone, ← hr10]
    rfl
  unfold Forth.act
  simp only [hjump, hip]
  unfold Scp.fetch
  cases haccess : access 2 a with
  | ram =>
    have hcode : c.codeAt a = .ok (load16 s.mem a) := by rw [codeAt_ram haccess, h.alike.half haccess]
    simp only [hcode] at htoken
    have hadvanced (inputs : List Cell) : (c.begin inputs).advance.Shows { s with ip := .ram (a + 2), jump := none } :=
      h.advanced inputs (by rw [hjump, hip]; rfl)
    exact enter_mirrors htoken hadvanced
  | hidden | device => exact fun hwild => absurd rfl hwild
  | fails f =>
    have hcode : c.codeAt a = .error (some f) := codeAt_fails haccess
    simp only [hcode] at htoken
    exact mirrors_fault (fun inputs => fetch_fails (.inl (htoken inputs))) h.toBacks

/-- The token that `execute` has left. -/
theorem jump_mirrors {r1 : Cell} (h : c.Shows s) (hjump : s.jump = some r1) : Mirrors c (s.act true) := by
  unfold Forth.act
  simp only [hjump]
  have hadvanced (inputs : List Cell) : (c.begin inputs).advance.Shows { s with jump := none } :=
    h.advanced inputs (by rw [hjump]; rfl)
  refine enter_mirrors (fun inputs => ?_) hadvanced
  have hsome : (c.begin inputs).jump = some r1 := h.jump.trans hjump
  rw [token, hsome]

end Cpu

-- ---------------------------------------------------------------------------
-- Lists of the firmware
-- ---------------------------------------------------------------------------

/-- The same but for where the position is kept. -/
inductive Turn.Same : Turn → Turn → Prop where
  | wild {t : Turn} : Same t .wild
  | on {s : Forth} {ip : Ip} (h : ip.addr = s.ip.addr) : Same (.on s) (.on { s with ip })
  | fault {f : Fault} {s : Forth} {ip : Ip} : Same (.fault f s) (.fault f { s with ip })

/-- The word that a token calls. -/
def Tok.called? : Tok → Option Label
  | .xt l => some l
  | _ => none

namespace Forth

open Turn

variable {s : Forth} {ip : Ip} {l : Label} {k : Nat} {r : Ref} {v x : Cell}

theorem same_pushd (h : ip.addr = s.ip.addr) : Same (s.pushd true v) ({ s with ip }.pushd true v) := by
  unfold pushd
  split
  · exact .fault
  · exact .on h

/-- The lists are within reach of a half word. -/
theorem rom_reached (l : Label) (i : Nat) : start + (xta (Ip.rom l i).addr).setWidth 32 = (Ip.rom l i).addr := by
  obtain ⟨-, hlow, hhigh, -⟩ := Label.list_placed l l.mem_all
  have hi := l.before_le i
  have htoNat := l.rom_toNat i
  rw [rstack_lo_toNat] at hhigh
  exact start_add_xta (by omega) (by omega)

/-- A branch to a mark of the list. -/
theorem same_goto : Same (.on { s with ip := .ram (start + (l.goal k r).setWidth 32) }) ({ s with ip }.goto l k r) := by
  unfold goto Label.goal
  cases l.target k r with
  | none => exact .wild
  | some i => exact .on (s := { s with ip := .ram _ }) (rom_reached l i).symm

section Operands

variable [Board] {b r1 : Cell} {h : Half}

theorem same_lit (haccess : access 2 b = .ram) (hx : load16 s.mem b = v.extractLsb' 16 16)
    (haccess' : access 2 (b + 2) = .ram) (hx' : load16 s.mem (b + 2) = v.extractLsb' 0 16) (hip : ip.addr = b + 2 + 2) :
    Same (Prim.dolit.turn true r1 { s with ip := .ram b }) ({ s with ip }.pushd true v) := by
  simp only [Prim.turn, operand, Scp.fetch, haccess, hx, haccess', hx', halves_or]
  exact same_pushd (s := { s with ip := .ram (b + 2 + 2) }) hip

theorem same_xtalit (haccess : access 2 b = .ram) (hx : load16 s.mem b = h) (hip : ip.addr = b + 2) :
    Same (Prim.xtalit.turn true r1 { s with ip := .ram b }) ({ s with ip }.pushd true (h.setWidth 32)) := by
  simp only [Prim.turn, operand, Scp.fetch, haccess, hx]
  exact same_pushd (s := { s with ip := .ram (b + 2) }) hip

theorem same_branch (haccess : access 2 b = .ram) (hx : load16 s.mem b = l.goal k r) :
    Same (Prim.branch.turn true r1 { s with ip := .ram b }) ({ s with ip }.goto l k r) := by
  simp only [Prim.turn, operand, Scp.fetch, haccess, hx]
  exact same_goto

theorem same_branchTo (haccess : access 2 b = .ram) (hx : load16 s.mem b = xta (Ip.rom l 0).addr) :
    Same (Prim.branch.turn true r1 { s with ip := .ram b }) (.on { s with ip := .rom l 0 }) := by
  simp only [Prim.turn, operand, Scp.fetch, haccess, hx]
  exact .on (s := { s with ip := .ram _ }) (rom_reached l 0).symm

theorem same_qbranch (haccess : access 2 b = .ram) (hx : load16 s.mem b = l.goal k r) (hip : ip.addr = b + 2) :
    Same (Prim.qbranch.turn true r1 { s with ip := .ram b })
      ({ s with ip }.one fun a ds => if a = 0 then { s with ip, ds }.goto l k r else .on { s with ip, ds }) := by
  show Same ({ s with ip := .ram b }.one _) _
  unfold one
  cases s.ds with
  | nil => exact .fault
  | cons a ds =>
    simp only [operand, Scp.fetch, haccess, hx]
    by_cases ha : a = 0
    · rw [if_pos ha, if_pos ha]
      exact same_goto (s := { s with ds })
    · rw [if_neg ha, if_neg ha]
      exact .on (s := { s with ds, ip := .ram (b + 2) }) hip

theorem same_next (haccess : access 2 b = .ram) (hx : load16 s.mem b = l.goal k r) (hip : ip.addr = b + 2) :
    Same (Prim.next.turn true r1 { s with ip := .ram b })
      ({ s with ip }.oner fun c rs => if c.addr = 0 then .on { s with ip, rs }
        else { s with ip, rs := .ram (c.addr - 1) :: rs }.goto l k r) := by
  show Same ({ s with ip := .ram b }.oner _) _
  unfold oner
  cases s.rs with
  | nil => exact .fault
  | cons c rs =>
    dsimp only
    by_cases hc : c.addr = 0
    · rw [if_pos hc, if_pos hc]
      exact .on (s := { s with rs, ip := .ram (b + 2) }) hip
    · rw [if_neg hc, if_neg hc]
      simp only [operand, Scp.fetch, haccess, hx]
      exact same_goto (s := { s with rs := .ram (c.addr - 1) :: rs })

end Operands

end Forth

namespace Cpu

variable {c : Cpu} {s : Forth} {ip : Ip}

theorem Shows.moved (h : c.Shows s) (hip : ip.addr = s.ip.addr) : c.Shows { s with ip } :=
  { h with r10 := h.r10.trans hip.symm }

theorem Follows.same {m : M Unit} {t u : Turn} (h : Follows m c t) (hsame : Turn.Same t u) : Follows m c u := by
  intro hwild
  cases hsame with
  | wild => exact absurd rfl hwild
  | @on s ip hip =>
    refine wp_mono (fun _ c' hc => ?_) (fun f c' hc => ?_) (h (by simp))
    · obtain ⟨s', heq, hc⟩ := hc
      cases heq
      exact ⟨_, rfl, hc.moved hip⟩
    · obtain ⟨s', heq, -⟩ := hc
      cases heq
  | fault =>
    refine wp_mono (fun _ c' hc => ?_) (fun f c' hc => ?_) (h (by simp))
    · obtain ⟨s', heq, -⟩ := hc
      cases heq
    · obtain ⟨s', heq, hc⟩ := hc
      cases heq
      exact ⟨_, rfl, ⟨hc.alike, hc.lists⟩⟩

variable [Board] [Sram] {l l' : Label} {k i : Nat} {t : Tok} {x : Half}

/-- The half words of a token can be read. -/
theorem Backs.reads (h : c.Backs s) (ht : l.list[k]? = some t) (hx : (l.halves k t)[i]? = some x) :
    access 2 ((Ip.rom l k).addr + BitVec.ofNat 32 (2 * i)) = .ram ∧
      load16 s.mem ((Ip.rom l k).addr + BitVec.ofNat 32 (2 * i)) = x := by
  have hi := (List.getElem?_eq_some_iff.mp hx).1
  rw [Label.length_halves] at hi
  obtain ⟨htoNat, hlt⟩ := Label.half_toNat ht hi
  obtain ⟨haligned, hlow, hhigh, -⟩ := Label.list_placed l l.mem_all
  rw [rstack_lo_toNat] at hhigh
  refine ⟨Spot.half ⟨by omega, by omega, ?_, .inl ?_⟩, h.lists.list l k t ht i x hx⟩
  · unfold sram_hi
    omega
  · rw [rstack_lo_toNat]
    omega

/-- The word a token begins with is what is fetched. -/
theorem rom_token (h : c.Shows s) (hjump : s.jump = none) (hip : s.ip = .rom l k) (ht : l.list[k]? = some t)
    (hx : (l.halves k t)[0]? = some l'.offset) (inputs : List Cell) : (c.begin inputs).token = .ok l'.addr := by
  obtain ⟨haccess, hread⟩ := h.reads ht hx
  have hr10 : c.r10 = (Ip.rom l k).addr + BitVec.ofNat 32 (2 * 0) := by
    rw [h.r10, hip]
    exact (BitVec.add_zero _).symm
  have hnone : (c.begin inputs).jump = none := h.jump.trans hjump
  have hcode : (c.begin inputs).codeAt (c.begin inputs).r10 = .ok l'.offset := by
    rw [show (c.begin inputs).r10 = _ from hr10, codeAt_ram haccess]
    exact congrArg _ ((h.alike.half haccess).trans hread)
  rw [token, hnone]
  dsimp only
  rw [hcode]
  rfl

/-- A token with operands in the list. -/
theorem inline_mirrors {p : Prim} {u : Turn} (h : c.Shows s) (hjump : s.jump = none) (hip : s.ip = .rom l k)
    (l' : Label) (ht : l.list[k]? = some t) (hx : (l.halves k t)[0]? = some l'.offset) (hl : l' ∈ Label.all.drop 8)
    (hp : l'.prim? = some p)
    (hsame : Turn.Same (p.turn true l'.addr { s with ip := .ram ((Ip.rom l k).addr + 2), jump := none }) u) :
    Mirrors c u := by
  have hadvanced (inputs : List Cell) :
      (c.begin inputs).advance.Shows { s with ip := .ram ((Ip.rom l k).addr + 2), jump := none } :=
    h.advanced inputs (by rw [hjump, hip]; rfl)
  have hcode (inputs : List Cell) : (c.begin inputs).codeAt l'.addr = .ok p.code := by
    rw [codeAt_ram (code_access l')]
    refine congrArg _ ((h.alike.half (code_access l')).trans ((h.lists.code l' hl).trans ?_))
    rw [Label.code, hp]
    rfl
  obtain ⟨inputs, hfollows⟩ := Prim.exec_follows (hadvanced []) l'.addr p
  exact mirrors_prim (fun inputs => fetch_prim (rom_token h hjump hip ht hx inputs) (hcode inputs) (ofCode_code p))
    ⟨inputs, hfollows.same hsame⟩

omit [Board] [Sram] in
/-- Behind a token of the list. -/
theorem rom_succ (ht : l.list[k]? = some t) :
    (Ip.rom l (k + 1)).addr = (Ip.rom l k).addr + BitVec.ofNat 32 (2 * t.size) := by
  apply BitVec.eq_of_toNat_eq
  have hnext := l.before_le (k + 1)
  obtain ⟨-, -, hhigh, -⟩ := Label.list_placed l l.mem_all
  rw [rstack_lo_toNat] at hhigh
  have hk := l.rom_toNat k
  rw [Label.before_succ ht] at hnext
  rw [toNat_add_ofNat (by omega), hk, l.rom_toNat, Label.before_succ ht]
  omega

omit [Board] [Sram] in
/-- The words that a token calls have code fields. -/
theorem called_words : ∀ l ∈ Label.all, ∀ t ∈ l.list, ∀ l' ∈ t.called?, l' ∈ Label.all.drop 8 := by
  decide +kernel

/-- Threaded code of the firmware. -/
theorem rom_mirrors (h : c.Shows s) (hjump : s.jump = none) (hip : s.ip = .rom l k) (ht : l.list[k]? = some t)
    (hmark : ∀ n, t ≠ .mark n) : Mirrors c (s.act true) := by
  have hact : s.act true = { s with ip := .rom l (k + 1), jump := none }.token true l k t := by
    unfold Forth.act
    simp only [hjump, hip, ht]
  have hsecond {x : Half} (hx : (l.halves k t)[1]? = some x) : access 2 ((Ip.rom l k).addr + 2) = .ram ∧
      load16 s.mem ((Ip.rom l k).addr + 2) = x := by
    have hreads := h.reads (i := 1) ht hx
    rwa [show BitVec.ofNat 32 (2 * 1) = (2 : Cell) from rfl] at hreads
  have hnext := rom_succ ht
  rw [hact]
  cases t with
  | xt l' =>
    have hl' := called_words l l.mem_all _ (List.mem_of_getElem? ht) l' rfl
    exact call_mirrors hl' (rom_token h hjump hip ht rfl) fun inputs =>
      h.advanced inputs (by rw [hjump, hip, hnext]; rfl)
  | lit v =>
    obtain ⟨hhigh, hx⟩ := hsecond rfl
    obtain ⟨hlow, hx'⟩ : access 2 ((Ip.rom l k).addr + 2 + 2) = .ram ∧
        load16 s.mem ((Ip.rom l k).addr + 2 + 2) = v.extractLsb' 0 16 := by
      have hreads := h.reads (i := 2) ht rfl
      rwa [show BitVec.ofNat 32 (2 * 2) = (2 + 2 : Cell) from rfl, ← BitVec.add_assoc] at hreads
    refine inline_mirrors h hjump hip .dolit ht rfl (by decide) rfl
      (Forth.same_lit (s := { s with jump := none }) hhigh hx hlow hx' ?_)
    rw [hnext, BitVec.add_assoc, BitVec.add_assoc]
    exact congrArg ((Ip.rom l k).addr + ·) rfl
  | xtalit l' =>
    obtain ⟨haccess, hx⟩ := hsecond rfl
    refine inline_mirrors h hjump hip .xtalit ht rfl (by decide) rfl
      (Forth.same_xtalit (s := { s with jump := none }) haccess hx ?_)
    rw [hnext, BitVec.add_assoc]
    exact congrArg ((Ip.rom l k).addr + ·) rfl
  | branch r =>
    obtain ⟨haccess, hx⟩ := hsecond rfl
    exact inline_mirrors h hjump hip .branch ht rfl (by decide) rfl
      (Forth.same_branch (s := { s with jump := none }) haccess hx)
  | qbranch r =>
    obtain ⟨haccess, hx⟩ := hsecond rfl
    refine inline_mirrors h hjump hip .qbranch ht rfl (by decide) rfl
      (Forth.same_qbranch (s := { s with jump := none }) haccess hx ?_)
    rw [hnext, BitVec.add_assoc]
    exact congrArg ((Ip.rom l k).addr + ·) rfl
  | next r =>
    obtain ⟨haccess, hx⟩ := hsecond rfl
    refine inline_mirrors h hjump hip .next ht rfl (by decide) rfl
      (Forth.same_next (s := { s with jump := none }) haccess hx ?_)
    rw [hnext, BitVec.add_assoc]
    exact congrArg ((Ip.rom l k).addr + ·) rfl
  | branchTo l' =>
    obtain ⟨haccess, hx⟩ := hsecond rfl
    exact inline_mirrors h hjump hip .branch ht rfl (by decide) rfl
      (Forth.same_branchTo (s := { s with jump := none }) haccess hx)
  | mark n => exact absurd rfl (hmark n)

/-- A step of the token machine is one of the registers, or none at a mark. -/
theorem Shows.step (h : c.Shows s) (hwild : s.act true ≠ .wild) :
    c.Shows s.step ∨ ∃ inputs, (c.step inputs).Shows s.step := by
  have hmirrored (hmirrors : Mirrors c (s.act true)) : ∃ inputs, (c.step inputs).Shows s.step := by
    obtain ⟨inputs, hon, hfault⟩ := hmirrors hwild
    refine ⟨inputs, ?_⟩
    rw [Forth.step]
    cases hact : s.act true with
    | on t => exact hon t hact
    | fault f t => exact hfault f t hact
    | wild => exact absurd hact hwild
  cases hjump : s.jump with
  | some r1 => exact .inr (hmirrored (jump_mirrors h hjump))
  | none =>
    cases hip : s.ip with
    | ram a => exact .inr (hmirrored (ram_mirrors h hjump hip))
    | rom l k =>
      cases ht : l.list[k]? with
      | none =>
        refine absurd ?_ hwild
        unfold Forth.act
        simp only [hjump, hip, ht]
      | some t =>
        by_cases hmark : ∃ n, t = .mark n
        · obtain ⟨n, rfl⟩ := hmark
          have hact : s.act true = .on { s with ip := .rom l (k + 1) } := by
            unfold Forth.act
            simp only [hjump, hip, ht]
            rfl
          rw [Forth.step, hact]
          refine .inl (h.moved ?_)
          rw [hip, rom_succ ht]
          exact BitVec.add_zero _
        · exact .inr (hmirrored (rom_mirrors h hjump hip ht fun n hn => hmark ⟨n, hn⟩))

theorem Shows.run (h : c.Shows s) (n : Nat) (hwild : ∀ i < n, (Forth.step^[i] s).act true ≠ .wild) :
    ∃ es, es.length ≤ n ∧ (system.run c es).Shows (Forth.step^[n] s) := by
  induction n generalizing c s with
  | zero => exact ⟨[], Nat.le_refl _, h⟩
  | succ n ih =>
    have hrest (i : Nat) (hi : i < n) : (Forth.step^[i] s.step).act true ≠ .wild := by
      rw [← Function.iterate_succ_apply]
      exact hwild (i + 1) (by omega)
    rw [Function.iterate_succ_apply]
    obtain h' | ⟨inputs, h'⟩ := h.step (hwild 0 (by omega))
    · obtain ⟨es, hes, hrun⟩ := ih h' hrest
      exact ⟨es, by omega, hrun⟩
    · obtain ⟨es, hes, hrun⟩ := ih h' hrest
      exact ⟨inputs :: es, by rw [List.length_cons]; omega, hrun⟩

/-- What the machine without bounds comes to, the registers come to, unless a stack overflows. -/
theorem Shows.leads {t : Forth} (h : c.Shows s) (hleads : Forth.Leads s t) :
    ∃ es s', (system.run c es).Shows s' ∧ (s' = t ∨ s'.Overflows) := by
  induction hleads using Relation.ReflTransGen.head_induction_on generalizing c with
  | refl => exact ⟨[], t, h, .inl rfl⟩
  | @head s u hstep _ ih =>
    by_cases hfits : u.Fits
    · have hact : s.act true = .on u := Forth.act_agrees u hstep hfits
      have hsu : s.step = u := hstep.step_eq hfits
      obtain h' | ⟨inputs, h'⟩ := h.step (by rw [hact]; exact fun heq => by cases heq)
      · rw [hsu] at h'
        exact ih h'
      · rw [hsu] at h'
        obtain ⟨es, s', hrun, hend⟩ := ih h'
        exact ⟨inputs :: es, s', hrun, hend⟩
    · exact ⟨[], s, h, .inr ⟨u, hstep, hfits⟩⟩

/-- Whatever the token machine does without running wild, the registers do. -/
theorem registers_follow (h : c.Shows s) :
    (∀ n, (∀ i < n, (Forth.step^[i] s).act true ≠ .wild) →
      ∃ es, es.length ≤ n ∧ (system.run c es).Shows (Forth.step^[n] s)) ∧
    ∀ t, Forth.Leads s t → ∃ es s', (system.run c es).Shows s' ∧ (s' = t ∨ s'.Overflows) :=
  ⟨h.run, fun _ => h.leads⟩

end Cpu

namespace Loaded

local instance : Board := .flat
local instance : Sram := .flat

variable {m : Memory 32}

/-- At the beginning of `inc`, before its argument and its caller are there. -/
def bare (m : Memory 32) : Cpu where
  r10 := (Ip.rom .inc 0).addr
  r11 := 0
  r14 := 0
  r15 := 0
  mem := m

theorem bare_shows (h : Lists m) : (bare m).Shows ⟨.rom .inc 0, [], [], m, ⟨[], [], []⟩, none⟩ where
  alike _ _ := rfl
  lists := h
  r10 := rfl
  jump := rfl
  r14 := rfl
  r15 := rfl
  fits := ⟨Nat.zero_le _, Nat.zero_le _⟩
  top _ ha := by cases ha
  below := trivial
  calls := trivial

/-- The main program calls `inc` with 6. -/
def cpu (m : Memory 32) : Cpu := ((bare m).storeD 6).storeR (Ip.rom .main 0).addr

theorem cpu_shows (h : Lists m) :
    (cpu m).Shows ⟨.rom .inc 0, [6], [.rom .main 0], m, ⟨[], [], []⟩, none⟩ :=
  ((bare_shows h).storeD (Nat.succ_pos _) 6).storeR (Nat.succ_pos _) (.rom .main 0)

theorem one_steps (m : Memory 32) :
    Forth.step^[3] ⟨.rom .inc 0, [6], [.rom .main 0], m, ⟨[], [], []⟩, none⟩ =
      ⟨.rom .inc 1, [1, 6], [.rom .main 0], m, ⟨[], [], []⟩, none⟩ := rfl

theorem plus_steps (m : Memory 32) :
    Forth.step^[5] ⟨.rom .inc 1, [1, 6], [.rom .main 0], m, ⟨[], [], []⟩, none⟩ =
      ⟨.rom .main 0, [7], [], m, ⟨[], [], []⟩, none⟩ := rfl

theorem inc_keeps_on (m : Memory 32) : ∀ i < 5 + 3,
    (Forth.step^[i] ⟨.rom .inc 0, [6], [.rom .main 0], m, ⟨[], [], []⟩, none⟩).act Bool.true ≠ .wild := by
  intro i hi hwild
  obtain hone | ⟨k, rfl⟩ : i < 3 ∨ ∃ k, i = k + 3 := by
    by_cases h : i < 3
    · exact .inl h
    · exact .inr ⟨i - 3, by omega⟩
  · interval_cases i <;> cases hwild
  · rw [Function.iterate_add_apply, one_steps] at hwild
    have hplus : k < 5 := by omega
    interval_cases k <;> cases hwild

/-- In the eight tokens of `inc`, `one` and `plus` the registers come to 7. -/
theorem six_incremented : ∃ es, es.length ≤ 5 + 3 ∧
    (Cpu.system.run (cpu (load (fun _ => 0) list_segments)) es).Shows
      ⟨.rom .main 0, [7], [], load (fun _ => 0) list_segments, ⟨[], [], []⟩, none⟩ := by
  have hrun := (Cpu.registers_follow (cpu_shows (lists_loaded fun _ => 0))).1 (5 + 3) (inc_keeps_on _)
  rwa [Function.iterate_add_apply, one_steps, plus_steps] at hrun

end Loaded

end Allwinner.Scp
