import Allwinner.Library.Runs
import Allwinner.Scp.Layout

/-!
# The inner interpreter on the registers of the AR100

`_next` fetches the execution token at the instruction pointer and jumps to the
primitive its code field names. Each primitive is given with the checks its
macros make and in their order. A failed check leaves the primitive with a
fault, and `_recover` resets both stack positions and goes to the list of that
fault; what the primitive stored until then stays stored.

The waiting loops at the UART and the scratch registers are left out. What a
device answers to a load is taken from the inputs of the step.
-/

namespace Allwinner.Scp

open Library Memory

/-- A cell stored by a push, by the stack it was meant for. -/
inductive Push where
  | dstack (a : Cell)
  | rstack (a : Cell)
  deriving DecidableEq, Repr

structure Cpu where
  r10 : Cell
  r11 : Cell
  r14 : Cell
  r15 : Cell
  mem : Memory 32
  /-- The execution token `execute` jumps to instead of the one at `r10`. -/
  jump : Option Cell := none
  /-- The pushes of the current step and the values its device loads get. -/
  pushed : List Push := []
  inputs : List Cell := []

namespace Cpu

abbrev M := EStateM Fault Cpu

-- ---------------------------------------------------------------------------
-- Loads and stores
-- ---------------------------------------------------------------------------

section Access

def input : M Cell := do
  let s ← get
  set { s with inputs := s.inputs.tail }
  return s.inputs.headD 0

variable [Board]

/-- A load of `n` bytes from `a`, where `read` takes them out of memory and
`mask` is what a device answer leaves of a cell. -/
def load (n a : Cell) (read : Memory 32 → Cell) (mask : Cell) : M Cell := do
  if a % n ≠ 0 then throw .unaligned_access
  if Board.ram a then return read (← get).mem
  if Board.device a then return (← input) &&& mask else throw .bus_access

def lwz (a : Cell) : M Cell := load 4 a (load32 · a) (-1)
def lhz (a : Cell) : M Cell := load 2 a (fun m => (load16 m a).setWidth 32) 0xffff
def lbz (a : Cell) : M Cell := load 1 a (fun m => (m a).setWidth 32) 0xff

/-- A store of `n` bytes to `a`. What a device does with them is not modelled. -/
def store (n a : Cell) (write : Memory 32 → Memory 32) : M Unit := do
  if a % n ≠ 0 then throw .unaligned_access
  if Board.ram a then modify fun s => { s with mem := write s.mem }
  else if !Board.device a then throw .bus_access

def sw (a v : Cell) : M Unit := store 4 a (store32 · a v)
def sh (a v : Cell) : M Unit := store 2 a (store16 · a (v.setWidth 16))
def sb (a v : Cell) : M Unit := store 1 a (store8 · a (v.setWidth 8))

/-- A cell stored as two half words, the lower one first. -/
def shPair (a v : Cell) : M Unit := do
  sh (a + 2) v
  sh a (v >>> 16)

end Access

-- ---------------------------------------------------------------------------
-- Stack macros
-- ---------------------------------------------------------------------------

def checkDstackOverflow : M Unit := do
  if dstack_hi - dstack_lo - CELL_BYTES ≤ (← get).r14 then throw .dstack_overflow

def checkDstackOneItem : M Unit := do
  if (← get).r14 < CELL_BYTES then throw .dstack_underflow

def checkDstackTwoItems : M Unit := do
  if (← get).r14 < 2 * CELL_BYTES then throw .dstack_underflow

def checkRstackOverflow : M Unit := do
  if rstack_hi - rstack_lo - CELL_BYTES ≤ (← get).r15 then throw .rstack_overflow

def checkRstackOneItem : M Unit := do
  if (← get).r15 < CELL_BYTES then throw .rstack_underflow

def checkRstackTwoItems : M Unit := do
  if (← get).r15 < 2 * CELL_BYTES then throw .rstack_underflow

/-- The second data-stack item, right below the one in `r11`. -/
def secondItem (s : Cpu) : Cell := load32 s.mem (dstack_lo + s.r14)

def topr (s : Cpu) : Cell := load32 s.mem (rstack_lo + s.r15)

/-- `reg` becomes the top of the data stack, and the old top goes to memory. -/
def storeD (reg : Cell) (s : Cpu) : Cpu :=
  let r14 := s.r14 + CELL_BYTES
  { s with
    r14, r11 := reg, mem := store32 s.mem (dstack_lo + r14) s.r11,
    pushed := s.pushed ++ [.dstack (dstack_lo + r14)] }

def loadD (s : Cpu) : Cpu := { s with r11 := s.secondItem, r14 := s.r14 - CELL_BYTES }

/-- The store to the return stack that `tor` and `_dolist` share. -/
def storeR (reg : Cell) (s : Cpu) : Cpu :=
  let r15 := s.r15 + CELL_BYTES
  { s with
    r15, mem := store32 s.mem (rstack_lo + r15) reg,
    pushed := s.pushed ++ [.rstack (rstack_lo + r15)] }

def dropR (s : Cpu) : Cpu := { s with r15 := s.r15 - CELL_BYTES }

def pushd (reg : Cell) : M Unit := do
  checkDstackOverflow
  modify (storeD reg)

def popd : M Unit := do
  checkDstackOneItem
  modify loadD

end Cpu

-- ---------------------------------------------------------------------------
-- Primitives
-- ---------------------------------------------------------------------------

/-- The native code a code field can point to: `_dolist` and every `CODE_XT`. -/
inductive Prim where
  | dolist | drop | dup | swap | «over» | qdup
  | tor | rat | tworat | rfrom
  | zless | equal | ult | slt
  | dolit | xtalit | branch | qbranch | next
  | umplus | and | or | xor
  | store | «at» | cstore | cat | xtastore | xtaat | xta_aligned_store
  | rawdot | emit_uart | depth | exit | execute | reset | aligned | ask_key
  deriving DecidableEq, Repr

namespace Prim

def all : List Prim :=
  [dolist, drop, dup, swap, «over», qdup, tor, rat, tworat, rfrom, zless, equal, ult, slt, dolit,
   xtalit, branch, qbranch, next, umplus, and, or, xor, store, «at», cstore, cat, xtastore, xtaat,
   xta_aligned_store, rawdot, emit_uart, depth, exit, execute, reset, aligned, ask_key]

/-- The offset of the native code from `_start`, as the code field holds it. -/
def code : Prim → Half
  | dolist => 0x12c | drop => 0x1bc | dup => 0x1c8 | swap => 0x1f4 | «over» => 0x214
  | qdup => 0x230 | tor => 0x290 | rat => 0x2b0 | tworat => 0x2cc | rfrom => 0x304
  | zless => 0x324 | equal => 0x340 | ult => 0x368 | slt => 0x390 | dolit => 0x3b8
  | xtalit => 0x3d8 | branch => 0x3ec | qbranch => 0x3fc | next => 0x424 | umplus => 0x460
  | and => 0x48c | or => 0x4ac | xor => 0x4cc | store => 0x4ec | «at» => 0x50c
  | cstore => 0x520 | cat => 0x540 | xtastore => 0x554 | xtaat => 0x574
  | xta_aligned_store => 0x588 | rawdot => 0x5b0 | emit_uart => 0x5d0 | depth => 0x604
  | exit => 0x614 | execute => 0x630 | reset => 0x664 | aligned => 0x67c | ask_key => 0x1564

def ofCode (c : Half) : Option Prim := all.find? (·.code == c)

variable [Board]

open Cpu

/-- A comparison of the two top-most items. -/
def cmp (op : Cell → Cell → Bool) : M Unit := do
  checkDstackTwoItems
  modify fun s =>
    { s with r11 := if op s.secondItem s.r11 then -1 else 0, r14 := s.r14 - CELL_BYTES }

def bitwise (op : Cell → Cell → Cell) : M Unit := do
  checkDstackTwoItems
  modify fun s => { s with r11 := op s.r11 s.secondItem, r14 := s.r14 - CELL_BYTES }

/-- A store through one of the memory accesses, followed by two pops. -/
def storing (access : Cell → Cell → M Unit) : M Unit := do
  checkDstackTwoItems
  let s ← get
  access s.r11 s.secondItem
  popd
  popd

def loading (access : Cell → M Cell) : M Unit := do
  checkDstackOneItem
  let r11 ← access (← get).r11
  modify fun s => { s with r11 }

/-- Runs the native code with the execution token in `r1`. -/
def exec (r1 : Cell) : Prim → M Unit
  | dolist => do
    modify fun s => { s.storeR s.r10 with r10 := r1 + 2 }
  | drop => popd
  | dup => do
    checkDstackOneItem
    pushd (← get).r11
  | swap => do
    checkDstackTwoItems
    modify fun s =>
      { s with r11 := s.secondItem, mem := store32 s.mem (dstack_lo + s.r14) s.r11 }
  | «over» => do
    checkDstackTwoItems
    pushd (← get).secondItem
  | qdup => do
    checkDstackOneItem
    let s ← get
    if s.r11 ≠ 0 then pushd s.r11
  | tor => do
    checkRstackOverflow
    modify fun s => s.storeR s.r11
    popd
  | rat => do
    checkRstackOneItem
    pushd (← get).topr
  | tworat => do
    checkRstackTwoItems
    let s ← get
    let r1 := load32 s.mem (rstack_lo + s.r15 - CELL_BYTES)
    pushd s.topr
    pushd r1
  | rfrom => do
    checkRstackOneItem
    let r1 := (← get).topr
    modify dropR
    pushd r1
  | zless => do
    checkDstackOneItem
    modify fun s => { s with r11 := if s.r11.slt 0 then -1 else 0 }
  | equal => cmp (· == ·)
  | ult => cmp BitVec.ult
  | slt => cmp BitVec.slt
  | dolit => do
    let s ← get
    let r1 ← lhz s.r10
    let r2 ← lhz (s.r10 + 2)
    modify fun s => { s with r10 := s.r10 + CELL_BYTES }
    pushd (r1 <<< 16 ||| r2)
  | xtalit => do
    let r1 ← lhz (← get).r10
    modify fun s => { s with r10 := s.r10 + XTA_BYTES }
    pushd r1
  | branch => do
    let r10 ← lhz (← get).r10
    modify fun s => { s with r10 := start + r10 }
  | qbranch => do
    checkDstackOneItem
    let r1 ← lhz (← get).r10
    modify fun s => { s with r10 := if s.r11 = 0 then start + r1 else s.r10 + XTA_BYTES }
    popd
  | next => do
    checkRstackOneItem
    let s ← get
    if s.topr = 0 then
      modify fun s => { s.dropR with r10 := s.r10 + XTA_BYTES }
    else
      modify fun s => { s with mem := store32 s.mem (rstack_lo + s.r15) (s.topr - 1) }
      let r10 ← lhz s.r10
      modify fun s => { s with r10 := start + r10 }
  | umplus => do
    checkDstackTwoItems
    modify fun s =>
      let r2 := s.r11 + s.secondItem
      { s with
        r11 := if r2 < s.r11 then 1 else 0, mem := store32 s.mem (dstack_lo + s.r14) r2 }
  | and => bitwise (· &&& ·)
  | or => bitwise (· ||| ·)
  | xor => bitwise (· ^^^ ·)
  | store => storing sw
  | «at» => loading lwz
  | cstore => storing sb
  | cat => loading lbz
  | xtastore => storing sh
  | xtaat => loading lhz
  | xta_aligned_store => storing shPair
  | rawdot => do
    checkDstackOneItem
    popd
  | emit_uart => do
    checkDstackOneItem
    popd
  | depth => do
    pushd ((← get).r14 >>> 2)
  | exit => do
    checkRstackOneItem
    modify fun s => { s.dropR with r10 := s.topr }
  | execute => do
    checkDstackOneItem
    let r1 := start + (← get).r11
    popd
    modify fun s => { s with jump := some r1 }
  | reset => throw .reset
  | aligned => do
    checkDstackTwoItems
    let r1 := (← get).r11 - 1
    popd
    modify fun s => { s with r11 := (s.r11 + r1) &&& (r1 ^^^ -1) }
  | ask_key => do
    let r5 ← input
    if r5 &&& 1 = 0 then pushd 0
    else
      let r1 ← input
      pushd r1
      pushd (-1)

end Prim

-- ---------------------------------------------------------------------------
-- The interpreter loop
-- ---------------------------------------------------------------------------

namespace Cpu

variable [Board]

def recover (s : Cpu) (f : Fault) : Cpu := { s with r10 := f.list, r14 := 0, r15 := 0, jump := none }

inductive Fetched where
  | prim (p : Prim) (r1 : Cell)
  | fault (f : Fault)
  | wild

/-- The half word at an address that holds code. -/
def codeAt (s : Cpu) (a : Cell) : Except (Option Fault) Half :=
  if a % 2 ≠ 0 then .error (some .unaligned_access)
  else if Board.ram a then .ok (load16 s.mem a)
  else if Board.device a then .error none
  else .error (some .bus_access)

/-- The execution token `_next` fetches, or the one `execute` left behind. -/
def token (s : Cpu) : Except (Option Fault) Cell :=
  match s.jump with
  | some r1 => .ok r1
  | none => return start + (← s.codeAt s.r10).setWidth 32

/-- The primitive the code field of the token points to. The machine runs wild
where that is anything but the start of a primitive. -/
def fetch (s : Cpu) : Fetched :=
  match s.token.bind fun r1 => (s.codeAt r1).map (·, r1) with
  | .ok (r2, r1) => ((Prim.ofCode r2).map (Fetched.prim · r1)).getD .wild
  | .error (some f) => .fault f
  | .error none => .wild

/-- The next step enters a list. -/
def calls (s : Cpu) : Bool :=
  match s.fetch with
  | .prim .dolist _ => true
  | _ => false

/-- The state a step starts from: no push yet, and the answers of the devices. -/
def begin (s : Cpu) (inputs : List Cell) : Cpu := { s with pushed := [], inputs }

/-- Past the token, unless it is the one `execute` left behind. -/
def advance (s : Cpu) : Cpu :=
  { s with r10 := if s.jump.isSome then s.r10 else s.r10 + XTA_BYTES, jump := none }

def settle : EStateM.Result Fault Cpu Unit → Cpu
  | .ok () t => t
  | .error f t => t.recover f

/-- One execution token. Nothing is said about a machine that has left the
primitives: it stays where it is. -/
def step (s : Cpu) (inputs : List Cell) : Cpu :=
  let s := s.begin inputs
  match s.fetch with
  | .prim p r1 => settle (p.exec r1 s.advance)
  | .fault f => s.recover f
  | .wild => s

def system : System Cpu (List Cell) Push where
  step s inputs := (s.step inputs, (s.step inputs).pushed)

end Cpu

end Allwinner.Scp
