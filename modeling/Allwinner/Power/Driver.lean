import Allwinner.Power.Interpreting

/-!
# The power-management IC behind the firmware

The power driver and the platform driver send their requests in any order. Between two of them
anything may happen that leaves the words, the IC and the way out alone. Each request sets in the IC
what it says, and is answered by what the registers say at that time.
-/

namespace Allwinner.Power

open Library Memory
open Scp
open Library.Structured (Prog)
open Library.RegisterFile (Registers Write writes_append)

/-- A request of one of the drivers. -/
inductive Request
  | service (q : Service)
  | command (c : Command)

namespace Request

def tokens : Request → List (List Byte)
  | service q => [q.name]
  | command c => c.words.map Word.text

/-- What is set in the IC. -/
def writes : Request → List (Write 8)
  | service q => q.writes
  | command c => c.writes

def answer : Request → Registers 8 → List Byte
  | service q, R => q.answer R
  | command _, _ => []

end Request

section Words

variable [Board] [Sram] [Wired] {bus : Bus} {E : Emitter} {ds : List Dentry} {u v w : Store}
  {R : Registers 8} {c : Cell}

/-- Requests one after the other. Before each of them others write where they may and talk to other
devices, and in the end the registers of the IC are as `post` says. -/
def Serves (E : Emitter) (bus : Bus) (defs : List Definition) (ds : List Dentry) (post : Registers 8 → Prop) :
    List Request → Registers 8 → Store → Prop
  | [], _, u => post (controller u.io).chip
  | q :: qs, R, u => ∀ W w a n, Keeps W u.mem w.mem → (∀ k ∈ W, k ∉ guarded E bus defs ds) →
      controller w.io = controller u.io → Reading (written E) q.tokens (w.parsing a n) →
      ∃ v, (∀ st, Returns .evaluate w (n :: a :: st) v st ∧ ReturnsBounded .evaluate w (n :: a :: st) v st) ∧
        Prints E (formatting ∪ parse_cells) w (chars (q.answer R)) v ∧
        Serves E bus defs ds post qs (R.writes q.writes) v

end Words

-- ---------------------------------------------------------------------------
-- A board with the bus
-- ---------------------------------------------------------------------------

namespace Soc

/-- The IC has been given its address. A transfer takes none, one or two looks at the status register. -/
def idle_controller : Rsb := ⟨fun _ => 0, none, 0, fun _ => 0, 0x2d⟩

def latency (n : Nat) : Nat := n % 3

/-- Memory below the controller, devices from there on. -/
abbrev board : Board where
  ram a := a.toNat < 0x1f03400
  device a := 0x1f03400 ≤ a.toNat
  answer ts a := (BusRegister.ofAddr? a).bind (ts.foldl (Rsb.step latency) idle_controller).answer

local instance : Board := board

theorem board_sram {a : Cell} (h : Span a 1) : Board.ram a = true := by
  obtain ⟨-, hhigh, -⟩ := h
  unfold sram_hi at hhigh
  exact decide_eq_true (by omega)

local instance : Sram := ⟨board_sram⟩

theorem board_ram (r : BusRegister) : Board.ram r.addr = false := by cases r <;> decide

theorem board_device (r : BusRegister) : Board.device r.addr = true := by cases r <;> decide

theorem board_answer (ts : List Transfer) (r : BusRegister) :
    Board.answer ts r.addr = (ts.foldl (Rsb.step latency) idle_controller).answer r := by
  show (BusRegister.ofAddr? r.addr).bind _ = _
  rw [BusRegister.ofAddr?_addr]
  rfl

abbrev wired : Wired := ⟨latency, idle_controller, board_ram, board_device, board_answer⟩

local instance : Wired := wired

def place : Utility → Cell
  | .divide => 0x12184 | .invert => 0x121a8 | .lshift => 0x121c0 | .rshift => 0x121e4 | .bitmask => 0x1220c
  | .bf_store => 0x12254 | .bf_fetch => 0x12288

def xta : BusWord → Half
  | .udelay => 0x2234 | .b_store => 0x22a8 | .rsb => 0x22c0 | .ctrl => 0x22d8 | .stat => 0x22ec
  | .daddr => 0x2308 | .data => 0x2324 | .cmd => 0x2340 | .saddr => 0x235c | .rtsaddr_bf => 0x2380
  | .sladdr_bf => 0x23a4 | .wait_stat => 0x23c8 | .start_trans => 0x23fc | .setup_rw => 0x2424
  | .pmic_fetch => 0x244c | .pmic_store => 0x2478

theorem xta_even (w : BusWord) : (xta w).setWidth 32 &&& (1 : Cell) = 0 := by cases w <;> decide

def bus : Bus := ⟨place, xta, xta_even⟩

end Soc

end Allwinner.Power
