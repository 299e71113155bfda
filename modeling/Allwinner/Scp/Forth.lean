import Mathlib.Data.List.Chain
import Mathlib.Data.List.Nodup
import Mathlib.Logic.Function.Iterate
import Mathlib.Logic.Relation
import Allwinner.Scp.Words

/-!
# The inner interpreter on its lists

The machine of the threaded code: a position in a list, the two stacks and the
memory. The lists of `scp.s` are fixed and are walked token by token; lists of
the dictionary are read from memory. The primitives are those of `Machine` with
the stacks taken as lists, each check where its macro makes it.

The firmware has its lists and its stacks in the memory it reads and stores to. So the
machine runs wild at a store below the stacks that is not to a variable, and
at every access to a stack by its address.

With `bounded` the stacks have the sizes of their areas. The machine without
that bound is the one whose runs are composed; both agree as long as nothing
overflows.
-/

namespace Allwinner.Scp

open Library Memory

namespace Tok

/-- The half words a token takes. -/
def size : Tok → Nat
  | xt _ => 1
  | lit _ => 3
  | xtalit _ | branch _ | qbranch _ | next _ | branchTo _ => 2
  | mark _ => 0

def isMark (n : Nat) : Tok → Bool
  | mark i => i == n
  | _ => false

end Tok

/-- Where threaded code continues: before a token of a list of `scp.s`, or at an
address. -/
inductive Ip where
  | rom (l : Label) (k : Nat)
  | ram (a : Cell)
  deriving DecidableEq

namespace Ip

/-- The address of the next token, as the return stack holds it. -/
def addr : Ip → Cell
  | rom l k => l.addr + 2 + BitVec.ofNat 32 (2 * ((l.list.take k).map Tok.size).sum)
  | ram a => a

end Ip

namespace Label

/-- The `VAR_XT`s of the firmware. -/
def var_xts : List Label :=
  [cp, base, hld, latest_dentry, eval_xt, emit_xt, mainloop_xt, current, parse_ptr, parse_len, tib_complete]

def isVar (l : Label) : Bool := l ∈ var_xts

/-- The cell of a `VAR_XT`. -/
def storage (l : Label) : Cell := (l.addr + 4 + 3) &&& ((4 - 1) ^^^ -1)

end Label

/-- The mark a branch at `k` names. -/
def Label.target (l : Label) (k : Nat) : Ref → Option Nat
  | .f n => ((l.list.drop k).findIdx? (Tok.isMark n)).map (k + ·)
  | .b n => ((l.list.take k).reverse.findIdx? (Tok.isMark n)).map (k - 1 - ·)

/-- What the UART and the device registers still have to say, what was sent, and the accesses to
devices. -/
structure Io where
  inputs : List Cell
  sent : List Cell
  transfers : List Transfer := []

namespace Io

variable (io : Io) (n a v : Cell)

/-- A load from a device. What does not follow from the accesses before is an input. -/
def load [Board] : Cell × Io :=
  let transfers := io.transfers ++ [.loaded n a]
  match Board.answer io.transfers a with
  | some v => (v, { io with transfers })
  | none => (io.inputs.headD 0, { io with inputs := io.inputs.tail, transfers })

def store : Io := { io with transfers := io.transfers ++ [.stored n a v] }

theorem load_eq [Board] : ∃ inputs transfers, (io.load n a).2 = { io with inputs, transfers } := by
  unfold load
  split <;> exact ⟨_, _, rfl⟩

end Io

structure Forth where
  ip : Ip
  /-- The data stack and the return stack, top first. -/
  ds : List Cell
  rs : List Ip
  mem : Memory 32
  io : Io
  /-- The execution token `execute` jumps to instead of the one at `ip`. -/
  jump : Option Cell := none

/-- What a token makes of a state. A fault keeps what was stored until then. -/
inductive Turn where
  | on (s : Forth)
  | fault (f : Fault) (s : Forth)
  | wild

namespace Turn

def bind (t : Turn) (f : Forth → Turn) : Turn :=
  match t with
  | on s => f s
  | fault e s => fault e s
  | wild => wild

end Turn

-- ---------------------------------------------------------------------------
-- Loads and stores
-- ---------------------------------------------------------------------------

section Access

variable [Board]

/-- Memory the machine does not see: the areas of the stacks. -/
def stacked (a : Cell) : Bool :=
  decide (rstack_lo.toNat ≤ a.toNat) && decide (a.toNat < dstack_hi.toNat)

/-- Memory that keeps what it holds: the vectors, the native code and the lists, without the
variables among them. -/
def fixed (a : Cell) : Bool :=
  decide (a.toNat < rstack_lo.toNat) &&
    !Label.var_xts.any fun l => decide (l.storage.toNat ≤ a.toNat) && decide (a.toNat < l.storage.toNat + 4)

inductive Access where
  | ram
  | hidden
  | device
  | fails (f : Fault)

def access (n a : Cell) : Access :=
  if a % n ≠ 0 then .fails .unaligned_access
  else if Board.ram a then if stacked a then .hidden else .ram
  else if Board.device a then .device
  else .fails .bus_access

/-- The same for a store. -/
def store_access (n a : Cell) : Access :=
  match access n a with
  | .ram => if fixed a then .hidden else .ram
  | other => other

/-- The half word of threaded code at an address. -/
def fetch (s : Forth) (a : Cell) (use : Half → Turn) : Turn :=
  match access 2 a with
  | .ram => use (load16 s.mem a)
  | .hidden | .device => .wild
  | .fails f => .fault f s

end Access

-- ---------------------------------------------------------------------------
-- Primitives
-- ---------------------------------------------------------------------------

namespace Forth

def flag (b : Bool) : Cell := if b then -1 else 0

def dstack_items : Nat := 63
def rstack_items : Nat := 31

variable (bounded : Bool)

def pushd (v : Cell) (s : Forth) : Turn :=
  if bounded && dstack_items ≤ s.ds.length then .fault .dstack_overflow s
  else .on { s with ds := v :: s.ds }

def one (s : Forth) (use : Cell → List Cell → Turn) : Turn :=
  match s.ds with
  | a :: ds => use a ds
  | [] => .fault .dstack_underflow s

/-- The top-most item comes second. -/
def two (s : Forth) (use : Cell → Cell → List Cell → Turn) : Turn :=
  match s.ds with
  | b :: a :: ds => use a b ds
  | _ => .fault .dstack_underflow s

def oner (s : Forth) (use : Ip → List Ip → Turn) : Turn :=
  match s.rs with
  | r :: rs => use r rs
  | [] => .fault .rstack_underflow s

/-- `_dolist` pushes without a check. What a store behind the return stack does is
left out. -/
def dolist (ip : Ip) (s : Forth) : Turn :=
  if bounded && rstack_items ≤ s.rs.length then .wild
  else .on { s with ip, rs := s.ip :: s.rs }

variable [Board]

def loading (n : Cell) (read : Memory 32 → Cell → Cell) (mask : Cell) (s : Forth) : Turn :=
  s.one fun a ds =>
    match access n a with
    | .ram => .on { s with ds := read s.mem a :: ds }
    | .hidden => .wild
    | .device =>
      let (v, io) := s.io.load n a
      .on { s with ds := (v &&& mask) :: ds, io }
    | .fails f => .fault f s

def storing (n : Cell) (write : Memory 32 → Cell → Cell → Memory 32) (s : Forth) : Turn :=
  s.two fun v a ds =>
    match store_access n a with
    | .ram => .on { s with ds, mem := write s.mem a v }
    | .hidden => .wild
    | .device => .on { s with ds, io := s.io.store n a v }
    | .fails f => .fault f s

/-- A half word of the list behind an inline token. -/
def operand (s : Forth) (use : Cell → Forth → Turn) : Turn :=
  match s.ip with
  | .ram a => fetch s a fun h => use (h.setWidth 32) { s with ip := .ram (a + 2) }
  | .rom _ _ => .wild

def store_half (m : Memory 32) (a v : Cell) : Memory 32 := store16 m a (v.setWidth 16)

/-- The lower half goes first, so it stays where the upper one is refused. -/
def store_halves (s : Forth) : Turn :=
  s.two fun v a ds =>
    match store_access 2 (a + 2) with
    | .fails f => .fault f s
    | .hidden => .wild
    | low =>
      let s := match low with
        | .ram => { s with mem := store_half s.mem (a + 2) v }
        | _ => { s with io := s.io.store 2 (a + 2) v }
      match store_access 2 a with
      | .ram => .on { s with ds, mem := store_half s.mem a (v >>> 16) }
      | .hidden => .wild
      | .device => .on { s with ds, io := s.io.store 2 a (v >>> 16) }
      | .fails f => .fault f s

end Forth

namespace Prim

open Forth

variable [Board] (bounded : Bool)

def turn (r1 : Cell) (p : Prim) (s : Forth) : Turn :=
  match p with
  | dolist => s.dolist bounded (.ram (r1 + 2))
  | drop => s.one fun _ ds => .on { s with ds }
  | dup => s.one fun a _ => s.pushd bounded a
  | swap => s.two fun a b ds => .on { s with ds := a :: b :: ds }
  | «over» => s.two fun a _ _ => s.pushd bounded a
  | qdup => s.one fun a _ => if a = 0 then .on s else s.pushd bounded a
  | tor =>
    if bounded && rstack_items ≤ s.rs.length then .fault .rstack_overflow s
    else s.one fun a ds => .on { s with ds, rs := .ram a :: s.rs }
  | rat => s.oner fun r _ => s.pushd bounded r.addr
  | tworat => s.oner fun r rs =>
    match rs with
    | [] => .fault .rstack_underflow s
    | r' :: _ => (s.pushd bounded r.addr).bind (·.pushd bounded r'.addr)
  | rfrom => s.oner fun r rs => { s with rs }.pushd bounded r.addr
  | zless => s.one fun a ds => .on { s with ds := flag (a.slt 0) :: ds }
  | equal => s.two fun a b ds => .on { s with ds := flag (a == b) :: ds }
  | ult => s.two fun a b ds => .on { s with ds := flag (a.ult b) :: ds }
  | slt => s.two fun a b ds => .on { s with ds := flag (a.slt b) :: ds }
  | dolit => s.operand fun r1 s => s.operand fun r2 s => s.pushd bounded (r1 <<< 16 ||| r2)
  | xtalit => s.operand fun r1 s => s.pushd bounded r1
  | branch => s.operand fun r1 s => .on { s with ip := .ram (start + r1) }
  | qbranch => s.one fun a ds => s.operand fun r1 s =>
    .on { s with ds, ip := if a = 0 then .ram (start + r1) else s.ip }
  | next => s.oner fun r rs =>
    if r.addr = 0 then
      match s.ip with
      | .ram a => .on { s with rs, ip := .ram (a + 2) }
      | .rom _ _ => .wild
    else s.operand fun r1 s =>
      .on { s with rs := .ram (r.addr - 1) :: rs, ip := .ram (start + r1) }
  | umplus => s.two fun a b ds =>
    .on { s with ds := (if a + b < b then 1 else 0) :: (a + b) :: ds }
  | and => s.two fun a b ds => .on { s with ds := (a &&& b) :: ds }
  | or => s.two fun a b ds => .on { s with ds := (a ||| b) :: ds }
  | xor => s.two fun a b ds => .on { s with ds := (a ^^^ b) :: ds }
  | store => s.storing 4 store32
  | «at» => s.loading 4 load32 (-1)
  | cstore => s.storing 1 fun m a v => store8 m a (v.setWidth 8)
  | cat => s.loading 1 (fun m a => (m a).setWidth 32) 0xff
  | xtastore => s.storing 2 store_half
  | xtaat => s.loading 2 (fun m a => (load16 m a).setWidth 32) 0xffff
  | xta_aligned_store => s.store_halves
  | rawdot => s.one fun _ ds => .on { s with ds }
  | emit_uart => s.one fun a ds => .on { s with ds, io := { s.io with sent := s.io.sent ++ [a] } }
  | depth => s.pushd bounded (BitVec.ofNat 32 s.ds.length)
  | exit => s.oner fun r rs => .on { s with ip := r, rs }
  | execute => s.one fun a ds => .on { s with ds, jump := some (start + a) }
  | reset => .fault .reset s
  | aligned => s.two fun a b ds => .on { s with ds := ((a + (b - 1)) &&& ((b - 1) ^^^ -1)) :: ds }
  | ask_key =>
    let s' := { s with io := { s.io with inputs := s.io.inputs.tail } }
    if s.io.inputs.headD 0 &&& 1 = 0 then s'.pushd bounded 0
    else
      (Forth.pushd bounded (s'.io.inputs.headD 0)
        { s' with io := { s'.io with inputs := s'.io.inputs.tail } }).bind (·.pushd bounded (-1))

end Prim

-- ---------------------------------------------------------------------------
-- The interpreter loop
-- ---------------------------------------------------------------------------

namespace Label

def all : List Label := (List.range 225).map Label.ofNat

/-- The execution token at an address. The lists without a code field are none. -/
def ofAddr? (r1 : Cell) : Option Label := (all.drop 8).find? (·.addr == r1)

theorem mem_all (l : Label) : l ∈ all :=
  List.mem_map.mpr ⟨l.ctorIdx, List.mem_range.mpr (by cases l <;> decide), by cases l <;> rfl⟩

theorem offset_lt : (all.map fun l => l.offset.toNat).IsChain (· < ·) := by decide +kernel

theorem addr_injective {l l' : Label} (h : l.addr = l'.addr) : l = l' := by
  have hoff : l.offset.toNat = l'.offset.toNat := by
    have hwide := congrArg BitVec.toNat ((BitVec.add_right_inj _).mp h)
    have hlt := l.offset.isLt
    have hlt' := l'.offset.isLt
    simp only [BitVec.toNat_setWidth] at hwide
    omega
  have hnodup : (all.map fun l => l.offset.toNat).Nodup :=
    (List.isChain_iff_pairwise.mp offset_lt).imp Nat.ne_of_lt
  exact List.inj_on_of_nodup_map hnodup (mem_all l) (mem_all l') hoff

theorem ofAddr?_addr {l : Label} (h : l ∈ all.drop 8) : ofAddr? l.addr = some l := by
  unfold ofAddr?
  cases hfind : (all.drop 8).find? (·.addr == l.addr) with
  | none => simpa using List.find?_eq_none.mp hfind l h
  | some l' => rw [addr_injective (by simpa using List.find?_some hfind : l'.addr = l.addr)]

end Label

/-- Where `_recover` continues. -/
def Fault.label : Fault → Label
  | .dstack_overflow => .error_dstack_overflow
  | .dstack_underflow => .error_dstack_underflow
  | .rstack_overflow => .error_rstack_overflow
  | .rstack_underflow => .error_rstack_underflow
  | .unaligned_access => .error_unaligned_access
  | .bus_access => .error_bus_access
  | .reset => .reset_list

namespace Forth

section Turns

variable [Board] (bounded : Bool)

def call (l : Label) (s : Forth) : Turn :=
  match l.prim? with
  | some p => p.turn bounded l.addr s
  | none => s.dolist bounded (.rom l 0)

/-- The execution token at `r1`, through its code field. -/
def enter (r1 : Cell) (s : Forth) : Turn :=
  match Label.ofAddr? r1 with
  | some l => s.call bounded l
  | none => fetch s r1 fun r2 =>
    match Prim.ofCode r2 with
    | some p => p.turn bounded r1 s
    | none => .wild

/-- The branch at `k` in the list of `l`, taken. -/
def goto (l : Label) (k : Nat) (r : Ref) (s : Forth) : Turn :=
  match l.target k r with
  | some i => .on { s with ip := .rom l i }
  | none => .wild

/-- A token at `k` in the list of `l`, with the position already behind it. -/
def token (l : Label) (k : Nat) (t : Tok) (s : Forth) : Turn :=
  match t with
  | .xt l' => s.call bounded l'
  | .lit v => s.pushd bounded v
  | .xtalit l' => s.pushd bounded (l'.offset.setWidth 32)
  | .branch r => s.goto l k r
  | .qbranch r => s.one fun a ds => if a = 0 then { s with ds }.goto l k r else .on { s with ds }
  | .next r => s.oner fun c rs =>
    if c.addr = 0 then .on { s with rs }
    else { s with rs := .ram (c.addr - 1) :: rs }.goto l k r
  | .branchTo l' => .on { s with ip := .rom l' 0 }
  | .mark _ => .on s

def act (s : Forth) : Turn :=
  match s.jump with
  | some r1 => { s with jump := none }.enter bounded r1
  | none =>
    match s.ip with
    | .rom l k =>
      match l.list[k]? with
      | some t => { s with ip := .rom l (k + 1) }.token bounded l k t
      | none => .wild
    | .ram a => fetch s a fun h =>
      { s with ip := .ram (a + 2) }.enter bounded (start + h.setWidth 32)

end Turns

variable [Board]

def recover (f : Fault) (s : Forth) : Forth :=
  { s with ip := .rom f.label 0, ds := [], rs := [], jump := none }

/-- One execution token on stacks of the given size. A machine that runs wild stays where it
is. -/
def step (s : Forth) : Forth :=
  match s.act true with
  | .on t => t
  | .fault f t => t.recover f
  | .wild => s

-- ---------------------------------------------------------------------------
-- Runs
-- ---------------------------------------------------------------------------

def Steps (s t : Forth) : Prop := s.act false = .on t

/-- From `s` the unbounded machine comes to `t`. -/
abbrev Leads : Forth → Forth → Prop := Relation.ReflTransGen Steps

def run : Nat → Forth → Option Forth
  | 0, s => some s
  | n + 1, s =>
    match s.act false with
    | .on t => run n t
    | _ => none

theorem run_leads {n : Nat} {s t : Forth} (h : run n s = some t) : Leads s t := by
  induction n generalizing s with
  | zero => cases h; exact .refl
  | succ n ih =>
    rw [run] at h
    split at h
    · exact .head ‹_› (ih h)
    · cases h

theorem steps_unique {s t u : Forth} (ht : s.Steps t) (hu : s.Steps u) : t = u :=
  Turn.on.inj (ht.symm.trans hu)

/-- Two runs that end in states without a successor end in the same one. -/
theorem Leads.unique {s t u : Forth} (ht : Leads s t) (hu : Leads s u)
    (hst : ∀ v, ¬ t.Steps v) (hsu : ∀ v, ¬ u.Steps v) : t = u := by
  have hunique : Relator.RightUnique Steps := fun _ _ _ h h' => steps_unique h h'
  rcases Relation.ReflTransGen.total_of_right_unique hunique ht hu with h | h
  · exact ((Relation.reflTransGen_iff_eq hst).mp h).symm
  · exact (Relation.reflTransGen_iff_eq hsu).mp h

-- ---------------------------------------------------------------------------
-- Stacks of bounded size
-- ---------------------------------------------------------------------------

def Fits (s : Forth) : Prop := s.ds.length ≤ dstack_items ∧ s.rs.length ≤ rstack_items

/-- The next token does not find room on a stack. -/
def Overflows (s : Forth) : Prop := ∃ t, s.Steps t ∧ ¬ t.Fits

end Forth

namespace Turn

/-- Where `u` goes on within the bounds, `t` goes on to the same state. -/
def Agrees (t u : Turn) : Prop := ∀ s, u = .on s → s.Fits → t = .on s

theorem Agrees.refl (t : Turn) : t.Agrees t := fun _ h _ => h

end Turn

namespace Forth

open Turn

variable {s : Forth}

theorem pushd_agrees (v : Cell) : (s.pushd true v).Agrees (s.pushd false v) := by
  rintro t ht hf
  cases ht
  have := hf.1
  simp only [List.length_cons] at this
  simp [pushd]; omega

theorem pushd_pushd_agrees (v w : Cell) :
    ((s.pushd true v).bind (pushd true w)).Agrees ((s.pushd false v).bind (pushd false w)) := by
  rintro t ht hf
  cases ht
  have := hf.1
  simp only [List.length_cons] at this
  have hfirst : ¬ dstack_items ≤ s.ds.length := by omega
  have hsecond : ¬ dstack_items ≤ s.ds.length + 1 := by omega
  simp [Turn.bind, pushd, hfirst, hsecond]

theorem dolist_agrees (ip : Ip) : (s.dolist true ip).Agrees (s.dolist false ip) := by
  rintro t ht hf
  cases ht
  have := hf.2
  simp only [List.length_cons] at this
  simp [dolist]; omega

theorem one_agrees {f g : Cell → List Cell → Turn} (h : ∀ a ds, (f a ds).Agrees (g a ds)) :
    (s.one f).Agrees (s.one g) := by
  unfold one
  split
  · exact h _ _
  · exact .refl _

theorem two_agrees {f g : Cell → Cell → List Cell → Turn}
    (h : ∀ a b ds, (f a b ds).Agrees (g a b ds)) : (s.two f).Agrees (s.two g) := by
  unfold two
  split
  · exact h _ _ _
  · exact .refl _

theorem oner_agrees {f g : Ip → List Ip → Turn} (h : ∀ r rs, (f r rs).Agrees (g r rs)) :
    (s.oner f).Agrees (s.oner g) := by
  unfold oner
  split
  · exact h _ _
  · exact .refl _

variable [Board]

theorem fetch_agrees {f g : Half → Turn} (h : ∀ c, (f c).Agrees (g c)) :
    (fetch s a f).Agrees (fetch s a g) := by
  unfold fetch
  split
  · exact h _
  all_goals exact .refl _

theorem operand_agrees {f g : Cell → Forth → Turn} (h : ∀ a t, (f a t).Agrees (g a t)) :
    (s.operand f).Agrees (s.operand g) := by
  unfold operand
  split
  · exact fetch_agrees fun _ => h _ _
  · exact .refl _

theorem tor_agrees : (Prim.tor.turn true r1 s).Agrees (Prim.tor.turn false r1 s) := by
  rintro t ht hf
  simp only [Prim.turn, Bool.false_and, Bool.false_eq_true, if_false] at ht
  unfold one at ht
  split at ht
  · cases ht
    have := hf.2
    simp only [List.length_cons] at this
    simp [Prim.turn, one, *]; omega
  · cases ht

theorem turn_agrees (p : Prim) : (p.turn true r1 s).Agrees (p.turn false r1 s) := by
  cases p with
  | tor => exact tor_agrees
  | dolist => exact dolist_agrees _
  | dup => exact one_agrees fun _ _ => pushd_agrees _
  | «over» => exact two_agrees fun _ _ _ => pushd_agrees _
  | qdup =>
    refine one_agrees fun a _ => ?_
    split
    · exact .refl _
    · exact pushd_agrees _
  | rat => exact oner_agrees fun _ _ => pushd_agrees _
  | tworat =>
    refine oner_agrees fun r rs => ?_
    cases rs with
    | nil => exact .refl _
    | cons r' rs => exact pushd_pushd_agrees _ _
  | rfrom => exact oner_agrees fun _ _ => pushd_agrees _
  | dolit =>
    unfold Prim.turn
    exact operand_agrees fun _ _ => operand_agrees fun _ _ => pushd_agrees _
  | xtalit => exact operand_agrees fun _ _ => pushd_agrees _
  | depth => exact pushd_agrees _
  | ask_key =>
    unfold Prim.turn
    dsimp only
    split
    · exact pushd_agrees _
    · exact pushd_pushd_agrees _ _
  | _ => exact .refl _

theorem call_agrees (l : Label) : (s.call true l).Agrees (s.call false l) := by
  unfold call
  split
  · exact turn_agrees _
  · exact dolist_agrees _

theorem enter_agrees : (s.enter true r1).Agrees (s.enter false r1) := by
  unfold enter
  split
  · exact call_agrees _
  · refine fetch_agrees fun c => ?_
    split
    · exact turn_agrees _
    · exact .refl _

theorem token_agrees (t : Tok) : (s.token true l k t).Agrees (s.token false l k t) := by
  cases t with
  | xt l' => exact call_agrees _
  | lit v => exact pushd_agrees _
  | xtalit l' => exact pushd_agrees _
  | _ => exact .refl _

/-- Within the bounds of the stacks the bounded machine does what the unbounded one does. -/
theorem act_agrees : (s.act true).Agrees (s.act false) := by
  unfold act
  split
  · exact enter_agrees
  · split
    · split
      · exact token_agrees _
      · exact .refl _
    · exact fetch_agrees fun _ => enter_agrees

theorem Steps.step_eq {t : Forth} (h : s.Steps t) (hf : t.Fits) : s.step = t := by
  rw [step, act_agrees t h hf]

/-- The bounded machine comes to `t`, or overflows a stack on the way. -/
def Ends (s t : Forth) : Prop := (∃ n, step^[n] s = t) ∨ ∃ n, (step^[n] s).Overflows

theorem Leads.ends {t : Forth} (h : Leads s t) : s.Ends t := by
  induction h using Relation.ReflTransGen.head_induction_on with
  | refl => exact .inl ⟨0, rfl⟩
  | @head s u hstep _ ih =>
    by_cases hf : u.Fits
    · have hsu : s.step = u := hstep.step_eq hf
      rcases ih with ⟨n, hn⟩ | ⟨n, hn⟩
      · exact .inl ⟨n + 1, by rw [Function.iterate_succ_apply, hsu, hn]⟩
      · exact .inr ⟨n + 1, by rwa [Function.iterate_succ_apply, hsu]⟩
    · exact .inr ⟨0, u, hstep, hf⟩

/-- Both machines come from `s` to `t`, the bounded one unless a stack overflows on the way. -/
structure Arrives (s t : Forth) : Prop where
  leads : Leads s t
  ends : Ends s t

theorem Leads.arrives {t : Forth} (h : Leads s t) : Arrives s t := ⟨h, h.ends⟩

end Forth

end Allwinner.Scp
