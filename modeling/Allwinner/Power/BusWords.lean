import Allwinner.Power.SerialBus
import Allwinner.Scp.Bitfields
import Allwinner.Scp.Programs

/-!
# The words for the power-management IC

`pmic@` and `pmic!` of `app.f` with the words they rest on, as the compiler leaves them in the
dictionary. They drive the controller of the bus by loads and stores, and wait until its transfer is
over.
-/

namespace Allwinner.Power

open Library Memory
open Scp
open Library.Structured (Prog runs_base)
open Library.RegisterFile (Registers)
open Forth hiding ip ds rs mem io jump one two

/-- A sequence of words. -/
def line {W : Type} (ws : List W) (next : Prog W := .done) : Prog W := ws.foldr .word next

/-- The words of `app.f` behind its utilities. -/
inductive BusWord where
  | udelay | b_store | rsb | ctrl | stat | daddr | data | cmd | saddr | rtsaddr_bf | sladdr_bf
  | wait_stat | start_trans | setup_rw | pmic_fetch | pmic_store
  deriving DecidableEq

namespace BusWord

def name : BusWord → List Byte
  | udelay => ascii "udelay"
  | b_store => ascii "b!"
  | rsb => ascii "rsb"
  | ctrl => ascii "ctrl"
  | stat => ascii "stat"
  | daddr => ascii "daddr"
  | data => ascii "data"
  | cmd => ascii "cmd"
  | saddr => ascii "saddr"
  | rtsaddr_bf => ascii "rtsaddr.bf"
  | sladdr_bf => ascii "sladdr.bf"
  | wait_stat => ascii "wait_stat"
  | start_trans => ascii "start_trans"
  | setup_rw => ascii "setup_rw"
  | pmic_fetch => ascii "pmic@"
  | pmic_store => ascii "pmic!"

def all : List BusWord :=
  [udelay, b_store, rsb, ctrl, stat, daddr, data, cmd, saddr, rtsaddr_bf, sladdr_bf, wait_stat, start_trans,
    setup_rw, pmic_fetch, pmic_store]

theorem mem_all (w : BusWord) : w ∈ all := by cases w <;> decide

end BusWord

/-- Where the utilities are, and the execution tokens of the words. None is immediate. -/
structure Bus where
  place : Utility → Cell
  xta : BusWord → Half
  even : ∀ w, (xta w).setWidth 32 &&& (1 : Cell) = 0

namespace Bus

variable (bus : Bus)

abbrev fetch : Half := bus.xta .pmic_fetch
abbrev store : Half := bus.xta .pmic_store
abbrev delay : Half := bus.xta .udelay

def utility (w : Utility) : Atom := .xt (Scp.xta (bus.place w))

def word (w : BusWord) : Atom := .xt (bus.xta w)

end Bus

def native (l : Label) : Atom := .xt l.offset

namespace BusWord

/-- What a definition of `app.f` is made of. -/
def body (bus : Bus) : BusWord → Body
  | udelay => line [.lit 1, bus.utility .rshift] (.forNext .done .done)
  | b_store => line [.lit 1, bus.utility .bf_store]
  | rsb => line [.lit 0x1f03400]
  | ctrl => line [bus.word rsb]
  | stat => line [bus.word rsb, .lit 0xc, native .plus]
  | daddr => line [bus.word rsb, .lit 0x10, native .plus]
  | data => line [bus.word rsb, .lit 0x1c, native .plus]
  | cmd => line [bus.word rsb, .lit 0x2c, native .plus]
  | saddr => line [bus.word rsb, .lit 0x30, native .plus]
  | rtsaddr_bf => line [bus.word saddr, .lit 0x10, .lit 8]
  | sladdr_bf => line [bus.word saddr, .lit 0, .lit 0x10]
  | wait_stat => .untilLoop (line [bus.word stat, native .«at», .lit 1, native .equal])
      (line [.lit 1, bus.word stat, native .store])
  | start_trans => line [.lit 1, bus.word ctrl, .lit 7, bus.word b_store, bus.word wait_stat]
  | setup_rw => line [bus.word daddr, native .store, .lit 0x2d, bus.word rtsaddr_bf, bus.utility .bf_store, .lit 0,
      bus.word sladdr_bf, bus.utility .bf_store]
  | pmic_fetch => line [bus.word setup_rw, .lit 0x8b, bus.word cmd, native .store, .lit 0, bus.word data,
      native .store, bus.word start_trans, bus.word data, native .«at»]
  | pmic_store => line [bus.word setup_rw, .lit 0x4e, bus.word cmd, native .store, bus.word data, native .store,
      bus.word start_trans]

end BusWord

/-- The entries of the words and their bodies. -/
def Bus.words (bus : Bus) : List Definition := BusWord.all.map fun w => (⟨0, bus.xta w, w.name⟩, w.body bus)

/-- The utilities and the words are in the dictionary. -/
structure Application (bus : Bus) (m : Memory 32) : Prop where
  utilities : Utilities m bus.place
  standing : Standing bus.words m

namespace Bus

variable {bus : Bus} {w : BusWord}

theorem mem_words (bus : Bus) (w : BusWord) : ((⟨0, bus.xta w, w.name⟩ : Dentry), w.body bus) ∈ bus.words :=
  List.mem_map_of_mem w.mem_all

theorem token_words (bus : Bus) : ∀ x ∈ bus.words, x.1.token = x.1.xta.setWidth 32 := by
  intro x hx
  obtain ⟨w, -, rfl⟩ := List.mem_map.mp hx
  exact unflagged_eq (bus.even w)

end Bus

/-- The memory of the application's code. -/
def Bus.cells (bus : Bus) : Set Nat :=
  {k | (∃ w, (bus.place w).toNat ≤ k ∧ k < (bus.place w).toNat + 2 * (w.code bus.place).length) ∨
    ∃ w, (start + (bus.xta w).setWidth 32).toNat ≤ k ∧
      k < (start + (bus.xta w).setWidth 32).toNat +
        2 * (definition_code (start + (bus.xta w).setWidth 32) (w.body bus)).length}

theorem Application.kept {W : Set Nat} {m m' : Memory 32} {bus : Bus} (h : Application bus m) (hkeeps : Keeps W m m')
    (hW : ∀ k ∈ W, k ∉ bus.cells) : Application bus m' := by
  refine ⟨fun w => (h.utilities w).kept hkeeps fun k hk hmem => hW k hk (.inl ⟨w, hmem⟩), fun x hx => ?_⟩
  refine (h.standing x hx).kept hkeeps fun k hk hmem => hW k hk (.inr ?_)
  have htoken := bus.token_words x hx
  obtain ⟨w, -, rfl⟩ := List.mem_map.mp hx
  rw [htoken] at hmem
  exact ⟨w, hmem⟩

section Words

variable [Board] [Sram] {bus : Bus} {m : Memory 32} {io io' : Io}

-- ---------------------------------------------------------------------------
-- Words one after the other
-- ---------------------------------------------------------------------------

/-- What the words mean that a definition of `app.f` is made of. -/
abbrev Bus.Meaning (bus : Bus) : Body → Local → Local → Prop := ProgramMeans bus.words

/-- A word leaves memory alone, whatever it does to the devices. -/
def Drives (x : Half) (m : Memory 32) (io : Io) (pre post : List Cell) (io' : Io) : Prop :=
  ∀ ds rs, Computes (start + x.setWidth 32) ⟨pre ++ ds, rs, m, io⟩ ⟨post ++ ds, rs, m, io'⟩

variable {x : Half} {pre post : List Cell} {k : Body} {ds : List Cell} {rs : List Ip} {t : Local} {v : Cell}

omit [Sram] in
theorem Drives.then (h : Drives x m io pre post io') (hs : Standing bus.words m)
    (hk : bus.Meaning k ⟨post ++ ds, rs, m, io'⟩ t) : bus.Meaning (.word (.xt x) k) ⟨pre ++ ds, rs, m, io⟩ t :=
  .word (runs_base ⟨h ds rs, hs⟩) hk

omit [Sram] in
theorem lit_then (hk : bus.Meaning k ⟨v :: ds, rs, m, io⟩ t) : bus.Meaning (.word (.lit v) k) ⟨ds, rs, m, io⟩ t :=
  .word (runs_base rfl) hk

omit [Sram] in
theorem Does.drives {l : Label} (h : Does l m pre post m) (hl : l ∈ Label.all.drop 8) :
    Drives l.offset m io pre post io := fun _ _ => h.computes hl

omit [Sram] in
/-- A primitive that talks to a device. -/
theorem Acts.drives {l : Label} (h : Acts l ⟨m, io⟩ pre post ⟨m, io'⟩) (hl : l ∈ Label.all.drop 8) :
    Drives l.offset m io pre post io' := fun ds rs => h.computes hl ds rs

/-- A word does what its body means. -/
theorem Drives.of_body (w : BusWord) (hs : Standing bus.words m)
    (h : ∀ ds, bus.Meaning (w.body bus) ⟨pre ++ ds, [], m, io⟩ ⟨post ++ ds, [], m, io'⟩) :
    Drives (bus.xta w) m io pre post io' := by
  intro ds rs
  have hcalled := called_computes (s := ⟨pre ++ ds, rs, m, io⟩) (t := ⟨post ++ ds, rs, m, io'⟩) bus.token_words
    (bus.mem_words w) ⟨hs, h ds, rfl, hs⟩
  rwa [bus.token_words _ (bus.mem_words w)] at hcalled

omit [Sram] in
theorem Performs.drives {w : Utility} (h : Performs (bus.place w) m pre post m) (hu : Utilities m bus.place) :
    Drives (xta (bus.place w)) m io pre post io := by
  intro ds rs ip R
  have hcode := hu w
  have hplace := hcode.start_add (i := 0) rfl
  rw [pos_zero] at hplace
  rw [hplace]
  exact h ip ds (rs ++ R) io

-- ---------------------------------------------------------------------------
-- Registers
-- ---------------------------------------------------------------------------

variable [Wired] {r : BusRegister}

omit [Sram] in
theorem at_bus (h : (controller io).answer r = some v) (ip : Ip) (ds : List Cell) (rs : List Ip) :
    call false .«at» ⟨ip, r.addr :: ds, rs, m, io, none⟩ =
      .on ⟨ip, v :: ds, rs, m, (io.load 4 r.addr).2, none⟩ := by
  obtain ⟨hload, -⟩ := load_bus h
  have hmask : v &&& (-1 : Cell) = v := BitVec.and_allOnes
  simp only [call, Label.prim?, Prim.turn, loading, Forth.one, access_bus]
  rw [hload, hmask]

omit [Sram] in
theorem store_bus (r : BusRegister) (v : Cell) (ip : Ip) (ds : List Cell) (rs : List Ip) :
    call false .store ⟨ip, r.addr :: v :: ds, rs, m, io, none⟩ =
      .on ⟨ip, ds, rs, m, io.store 4 r.addr v, none⟩ := by
  simp only [call, Label.prim?, Prim.turn, storing, Forth.two, store_access_bus]

omit [Sram] in
theorem at_drives (h : (controller io).answer r = some v) :
    Drives Label.«at».offset m io [r.addr] [v] (io.load 4 r.addr).2 :=
  Acts.drives (fun ip ds rs => ⟨_, at_bus h ip ds rs, .refl⟩) (by decide)

omit [Sram] in
theorem store_drives (r : BusRegister) (v : Cell) :
    Drives Label.store.offset m io [r.addr, v] [] (io.store 4 r.addr v) :=
  Acts.drives (fun ip ds rs => ⟨_, store_bus r v ip ds rs, .refl⟩) (by decide)

variable (hA : Application bus m)
include hA

omit [Wired] in
theorem rsb_drives : Drives (bus.xta .rsb) m io [] [0x1f03400] io :=
  .of_body .rsb hA.standing fun _ => lit_then .done

omit [Wired] in
/-- A register by its offset. -/
theorem offset_drives (w : BusWord) (v : Cell)
    (hw : w.body bus = line [bus.word .rsb, .lit v, native .plus]) :
    Drives (bus.xta w) m io [] [0x1f03400 + v] io := by
  refine .of_body w hA.standing fun ds => ?_
  rw [hw]
  exact (rsb_drives hA).then hA.standing (lit_then ((Does.drives plus_does (by decide)).then hA.standing .done))

omit [Wired] in
theorem ctrl_drives : Drives (bus.xta .ctrl) m io [] [BusRegister.ctrl.addr] io :=
  .of_body .ctrl hA.standing fun _ => (rsb_drives hA).then hA.standing .done

omit [Wired] in
theorem stat_drives : Drives (bus.xta .stat) m io [] [BusRegister.stat.addr] io := offset_drives hA .stat _ rfl

omit [Wired] in
theorem daddr_drives : Drives (bus.xta .daddr) m io [] [BusRegister.daddr.addr] io := offset_drives hA .daddr _ rfl

omit [Wired] in
theorem data_drives : Drives (bus.xta .data) m io [] [BusRegister.data.addr] io := offset_drives hA .data _ rfl

omit [Wired] in
theorem cmd_drives : Drives (bus.xta .cmd) m io [] [BusRegister.cmd.addr] io := offset_drives hA .cmd _ rfl

omit [Wired] in
theorem saddr_drives : Drives (bus.xta .saddr) m io [] [BusRegister.saddr.addr] io := offset_drives hA .saddr _ rfl

omit [Wired] in
theorem rtsaddr_bf_drives : Drives (bus.xta .rtsaddr_bf) m io [] [8, 0x10, BusRegister.saddr.addr] io :=
  .of_body .rtsaddr_bf hA.standing fun _ => (saddr_drives hA).then hA.standing (lit_then (lit_then .done))

omit [Wired] in
theorem sladdr_bf_drives : Drives (bus.xta .sladdr_bf) m io [] [0x10, 0, BusRegister.saddr.addr] io :=
  .of_body .sladdr_bf hA.standing fun _ => (saddr_drives hA).then hA.standing (lit_then (lit_then .done))

/-- `bf!` on a register. -/
theorem bf_store_drives {old : Cell} (h : (controller io).answer r = some old) (v s w : Cell) :
    Drives (xta (bus.place .bf_store)) m io [w, s, r.addr, v] []
      ((io.load 4 r.addr).2.store 4 r.addr (BitFields.insert old s.toNat w.toNat v)) := by
  intro ds rs ip R
  have hplace := (hA.utilities .bf_store).start_add (i := 0) rfl
  rw [pos_zero] at hplace
  rw [hplace]
  exact bf_store_leads hA.utilities (at_bus h) (store_bus r _) (hA.utilities .bf_store) ip ds (rs ++ R)

/-- The register of a field, written and nothing else. -/
theorem bf_store_held {old : Cell} (hctrl : r ≠ .ctrl) (hstat : r ≠ .stat) (hidle : (controller io).pending = none)
    (hold : (controller io).held r = old) (v s w : Cell) :
    ∃ io', Drives (xta (bus.place .bf_store)) m io [w, s, r.addr, v] [] io' ∧ io'.sent = io.sent ∧
      controller io' = { controller io with
        held := Function.update (controller io).held r (BitFields.insert old s.toNat w.toNat v) } := by
  have hanswer : (controller io).answer r = some old := by rw [Rsb.answer_held hstat hidle, hold]
  obtain ⟨-, hsent, hload⟩ := load_bus hanswer
  refine ⟨_, bf_store_drives hA hanswer v s w, hsent, ?_⟩
  rw [controller_store, hload, Rsb.load_eq hstat, Rsb.store_held hctrl hstat]

-- ---------------------------------------------------------------------------
-- Transfers
-- ---------------------------------------------------------------------------

omit [Wired] [Sram] hA in
theorem equal_drives (a b : Cell) : Drives Label.equal.offset m io [b, a] [flag (a == b)] io :=
  Does.drives (fun _ _ _ _ => ⟨_, rfl, .refl⟩) (by decide)

/-- One look at the status register. -/
theorem look_means (h : (controller io).answer .stat = some v) (ds : List Cell) (rs : List Ip) :
    bus.Meaning (line [bus.word .stat, native .«at», .lit 1, native .equal]) ⟨ds, rs, m, io⟩
      ⟨flag (v == 1) :: ds, rs, m, (io.load 4 BusRegister.stat.addr).2⟩ :=
  (stat_drives hA).then hA.standing ((at_drives h).then hA.standing
    (lit_then ((equal_drives v 1).then hA.standing .done)))

/-- The loop of `wait_stat` ends when the transfer is over. -/
theorem wait_loop (n : Nat) (h : (controller io).pending = some n) :
    ∃ io', io'.sent = io.sent ∧ controller io' = { controller io with pending := some 0 } ∧
      ∀ {k ds rs t}, bus.Meaning k ⟨ds, rs, m, io'⟩ t →
        bus.Meaning (.untilLoop (line [bus.word .stat, native .«at», .lit 1, native .equal]) k) ⟨ds, rs, m, io⟩ t := by
  induction n generalizing io with
  | zero =>
    have hv : (controller io).answer .stat = some 1 := by simp [Rsb.answer, h]
    obtain ⟨-, hsent, hload⟩ := load_bus hv
    refine ⟨_, hsent, ?_, fun hk => .untilTrue (look_means hA hv _ _) ⟨_, _, rfl, by decide, rfl⟩ hk⟩
    rw [hload, Rsb.load, h]
    rfl
  | succ n ih =>
    have hv : (controller io).answer .stat = some 0 := by simp [Rsb.answer, h]
    obtain ⟨-, hsent, hload⟩ := load_bus hv
    have hnext : (controller (io.load 4 BusRegister.stat.addr).2).pending = some n := by
      rw [hload, Rsb.load, h]
      rfl
    obtain ⟨io', hsent', hio', hrest⟩ := ih hnext
    refine ⟨io', hsent'.trans hsent, ?_, fun hk => .untilFalse (look_means hA hv _ _) ⟨_, _, rfl, by decide, rfl⟩
      (hrest hk)⟩
    rw [hio', hload]
    rfl

theorem wait_stat_drives (n : Nat) (h : (controller io).pending = some n) :
    ∃ io', Drives (bus.xta .wait_stat) m io [] [] io' ∧ io'.sent = io.sent ∧
      controller io' = { controller io with pending := none } := by
  obtain ⟨io', hsent, hio', hloop⟩ := wait_loop hA n h
  refine ⟨io'.store 4 BusRegister.stat.addr 1, .of_body .wait_stat hA.standing fun ds => ?_, hsent, ?_⟩
  · exact hloop (lit_then ((stat_drives hA).then hA.standing
      ((store_drives .stat 1).then hA.standing .done)))
  · rw [controller_store, hio']
    rfl

/-- A transfer is started, and is over. -/
theorem start_trans_drives (h : (controller io).pending = none) :
    ∃ io' held, Drives (bus.xta .start_trans) m io [] [] io' ∧ io'.sent = io.sent ∧
      (∀ r ≠ .ctrl, held r = (controller io).held r) ∧
      controller io' = { Rsb.transfer { controller io with held } with
        pending := none, count := (controller io).count + 1 } := by
  have hanswer := Rsb.answer_held (r := .ctrl) (by decide) h
  obtain ⟨-, hsent, hload⟩ := load_bus hanswer
  have hset : (BitFields.insert ((controller io).held .ctrl) (7 : Cell).toNat (1 : Cell).toNat 1).getLsbD 7 = true := by
    rw [BitFields.getLsbD_insert _ _ (by decide) (by decide), if_pos (by decide)]
    decide
  have hb := bf_store_drives hA hanswer 1 7 1
  obtain ⟨held, hheld, hstart⟩ : ∃ held, (∀ r ≠ .ctrl, held r = (controller io).held r) ∧
      controller ((io.load 4 BusRegister.ctrl.addr).2.store 4 BusRegister.ctrl.addr _) =
        { Rsb.transfer { controller io with held } with
          pending := some (Wired.latency (controller io).count), count := (controller io).count + 1 } := by
    let set := BitFields.insert ((controller io).held .ctrl) (7 : Cell).toNat (1 : Cell).toNat 1
    have hstart : controller ((io.load 4 BusRegister.ctrl.addr).2.store 4 BusRegister.ctrl.addr set) = _ :=
      controller_store .ctrl set
    rw [hload, Rsb.load_eq (by decide), Rsb.store_start hset] at hstart
    exact ⟨_, fun r hr => Function.update_of_ne hr _ _, hstart⟩
  obtain ⟨io', hwait, hsent', hio'⟩ := wait_stat_drives hA _ (congrArg Rsb.pending hstart)
  have hstore : Drives (bus.xta .b_store) m io [7, BusRegister.ctrl.addr, 1] [] _ :=
    .of_body .b_store hA.standing fun ds => lit_then (hb.then hA.standing .done)
  refine ⟨io', held, .of_body .start_trans hA.standing fun ds => ?_, hsent'.trans hsent, hheld, ?_⟩
  · exact lit_then ((ctrl_drives hA).then hA.standing (lit_then (hstore.then hA.standing
      (hwait.then hA.standing .done))))
  · rw [hio', hstart]

-- ---------------------------------------------------------------------------
-- Reads and writes of the IC
-- ---------------------------------------------------------------------------

omit [Sram] hA in
/-- No transfer is under way, the IC has the address the words use, and its registers are `R`. -/
structure Attached (io : Io) (R : Registers 8) : Prop where
  pending : (controller io).pending = none
  address : (controller io).address = 0x2d
  chip : (controller io).chip = R

/-- The controller is told which register of the IC is meant. -/
structure Aimed (io : Io) (R : Registers 8) (r : Cell) : Prop extends Attached io R where
  daddr : (controller io).held .daddr = r
  rtsaddr : (BitFields.extract ((controller io).held .saddr) 16 8).setWidth 8 = (0x2d : Byte)

variable {R : Registers 8} {a : Cell}

omit [Sram] hA in
/-- `ctrl` is another register. -/
theorem Aimed.held_rtsaddr {held : BusRegister → Cell} (h : Aimed io R a)
    (hheld : ∀ r ≠ .ctrl, held r = (controller io).held r) :
    (BitFields.extract (held .saddr) 16 8).setWidth 8 = (0x2d : Byte) := by
  rw [hheld .saddr (by decide)]
  exact h.rtsaddr

theorem setup_rw_drives (h : Attached io R) (a : Cell) :
    ∃ io', Drives (bus.xta .setup_rw) m io [a] [] io' ∧ io'.sent = io.sent ∧ Aimed io' R a := by
  have hstore : controller (io.store 4 BusRegister.daddr.addr a) = _ := controller_store .daddr a
  rw [Rsb.store_held (by decide) (by decide)] at hstore
  have hpending : (controller (io.store 4 BusRegister.daddr.addr a)).pending = none := by
    rw [hstore]
    exact h.pending
  obtain ⟨io₁, hrtsaddr, hsent₁, hio₁⟩ := bf_store_held hA (r := .saddr) (by decide) (by decide) hpending rfl 0x2d 0x10 8
  have hpending₁ : (controller io₁).pending = none := by
    rw [hio₁]
    exact hpending
  obtain ⟨io₂, hsladdr, hsent₂, hio₂⟩ := bf_store_held hA (r := .saddr) (by decide) (by decide) hpending₁ rfl 0 0 0x10
  refine ⟨io₂, .of_body .setup_rw hA.standing fun ds => ?_, hsent₂.trans hsent₁, ⟨?_, ?_, ?_⟩, ?_, ?_⟩
  · exact (daddr_drives hA).then hA.standing ((store_drives .daddr a).then hA.standing
      (lit_then ((rtsaddr_bf_drives hA).then hA.standing (hrtsaddr.then hA.standing
      (lit_then ((sladdr_bf_drives hA).then hA.standing (hsladdr.then hA.standing .done)))))))
  · rw [hio₂]
    exact hpending₁
  · rw [hio₂, hio₁, hstore]
    exact h.address
  · rw [hio₂, hio₁, hstore]
    exact h.chip
  · rw [hio₂, hio₁, hstore]
    rfl
  · rw [hio₂, hio₁]
    simp only [Function.update_self]
    rw [BitFields.extract_insert_of_disjoint _ _ (by decide) (by decide) (.inl (by decide))]
    have hfield := BitFields.extract_insert (s := 16) (w := 8)
      ((controller (io.store 4 BusRegister.daddr.addr a)).held .saddr) 0x2d (by decide)
    exact (congrArg (BitVec.setWidth 8) hfield).trans (by decide)

omit [Sram] in
/-- A value is put into a register. -/
theorem set_register {w : BusWord} (hw : ∀ io, Drives (bus.xta w) m io [] [r.addr] io) (hctrl : r ≠ .ctrl)
    (hstat : r ≠ .stat) (v : Cell) (io : Io) :
    ∃ io', io'.sent = io.sent ∧
      controller io' = { controller io with held := Function.update (controller io).held r v } ∧
      ∀ {k ds rs t}, bus.Meaning k ⟨ds, rs, m, io'⟩ t →
        bus.Meaning (.word (bus.word w) (.word (native .store) k)) ⟨v :: ds, rs, m, io⟩ t := by
  refine ⟨io.store 4 r.addr v, rfl, ?_, fun hk => (hw io).then hA.standing ((store_drives r v).then hA.standing hk)⟩
  rw [controller_store, Rsb.store_held hctrl hstat]

omit [Sram] hA in
/-- A command and data do not change what is aimed at. -/
theorem Aimed.told {io₁ io₂ : Io} {c v : Cell} (h : Aimed io R a)
    (hcmd : controller io₁ = { controller io with held := Function.update (controller io).held .cmd c })
    (hdata : controller io₂ = { controller io₁ with held := Function.update (controller io₁).held .data v }) :
    Aimed io₂ R a ∧ (controller io₂).held .cmd = c ∧ (controller io₂).held .data = v := by
  refine ⟨⟨⟨?_, ?_, ?_⟩, ?_, ?_⟩, ?_, ?_⟩
  all_goals rw [hdata, hcmd]
  · exact h.pending
  · exact h.address
  · exact h.chip
  · exact h.daddr
  · exact h.rtsaddr
  · rfl
  · rfl

/-- `pmic@` reads a register of the IC. -/
theorem pmic_fetch_drives (h : Attached io R) (ha : a.toNat < 256) :
    ∃ io', Drives bus.fetch m io [a] [(R a.toNat).setWidth 32] io' ∧ io'.sent = io.sent ∧ Attached io' R := by
  obtain ⟨io₁, hsetup, hsent₁, hio₁⟩ := setup_rw_drives hA h a
  obtain ⟨io₂, hsent₂, hio₂, hcmd⟩ := set_register hA (fun _ => cmd_drives hA) (by decide) (by decide) 0x8b io₁
  obtain ⟨io₃, hsent₃, hio₃, hdata⟩ := set_register hA (fun _ => data_drives hA) (by decide) (by decide) 0 io₂
  obtain ⟨haimed, hc, -⟩ := hio₁.told hio₂ hio₃
  obtain ⟨io₄, held, hstart, hsent₄, hheld, hio₄⟩ := start_trans_drives hA haimed.pending
  have htransfer := Rsb.transfer_read (b := { controller io₃ with held }) ((hheld .cmd (by decide)).trans hc)
    ((haimed.held_rtsaddr hheld).trans haimed.address.symm)
  rw [htransfer] at hio₄
  have hvalue : (controller io₄).held .data = (R a.toNat).setWidth 32 := by
    rw [hio₄]
    show ((controller io₃).chip ((held .daddr).toNat % 256)).setWidth 32 = _
    rw [haimed.chip, hheld .daddr (by decide), haimed.daddr, Nat.mod_eq_of_lt ha]
  have hanswer := (Rsb.answer_held (r := .data) (by decide) (congrArg Rsb.pending hio₄)).trans (congrArg some hvalue)
  obtain ⟨-, hsent₅, hload⟩ := load_bus hanswer
  refine ⟨_, .of_body .pmic_fetch hA.standing fun ds => ?_,
    hsent₅.trans (hsent₄.trans (hsent₃.trans (hsent₂.trans hsent₁))), ?_, ?_, ?_⟩
  · exact hsetup.then hA.standing (lit_then (hcmd (lit_then (hdata (hstart.then hA.standing
      ((data_drives hA).then hA.standing ((at_drives hanswer).then hA.standing .done)))))))
  all_goals rw [hload, Rsb.load_eq (by decide), hio₄]
  · exact haimed.address
  · exact haimed.chip

/-- `pmic!` sets a register of the IC. -/
theorem pmic_store_drives (h : Attached io R) (ha : a.toNat < 256) (v : Cell) :
    ∃ io', Drives bus.store m io [a, v] [] io' ∧ io'.sent = io.sent ∧
      Attached io' (Function.update R a.toNat (v.setWidth 8)) := by
  obtain ⟨io₁, hsetup, hsent₁, hio₁⟩ := setup_rw_drives hA h a
  obtain ⟨io₂, hsent₂, hio₂, hcmd⟩ := set_register hA (fun _ => cmd_drives hA) (by decide) (by decide) 0x4e io₁
  obtain ⟨io₃, hsent₃, hio₃, hdata⟩ := set_register hA (fun _ => data_drives hA) (by decide) (by decide) v io₂
  obtain ⟨haimed, hc, hv⟩ := hio₁.told hio₂ hio₃
  obtain ⟨io₄, held, hstart, hsent₄, hheld, hio₄⟩ := start_trans_drives hA haimed.pending
  have htransfer := Rsb.transfer_write (b := { controller io₃ with held }) ((hheld .cmd (by decide)).trans hc)
    ((haimed.held_rtsaddr hheld).trans haimed.address.symm)
  rw [htransfer] at hio₄
  refine ⟨io₄, .of_body .pmic_store hA.standing fun ds => ?_,
    hsent₄.trans (hsent₃.trans (hsent₂.trans hsent₁)), ?_, ?_, ?_⟩
  · show bus.Meaning _ ⟨[a] ++ v :: ds, [], m, io⟩ _
    exact hsetup.then hA.standing (lit_then (hcmd (hdata (hstart.then hA.standing .done))))
  · rw [hio₄]
  · rw [hio₄]
    exact haimed.address
  · rw [hio₄]
    show Function.update (controller io₃).chip ((held .daddr).toNat % 256) ((held .data).setWidth 8) = _
    rw [haimed.chip, hheld .daddr (by decide), hheld .data (by decide), haimed.daddr, hv, Nat.mod_eq_of_lt ha]

end Words

end Allwinner.Power
