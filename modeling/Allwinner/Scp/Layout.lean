import Allwinner.Library.Memory

/-!
# Addresses of the SCP firmware

The firmware is linked to `0x10000`. The stack areas, the pad and the terminal
input buffer follow the text in the order of `scp.s`, and the dictionary of the
running interpreter grows behind them. Offsets of labels relative to `_start`
are the ones the assembler assigns for the AR100.
-/

namespace Allwinner.Scp

abbrev Cell := BitVec 32
abbrev Byte := BitVec 8
abbrev Half := BitVec 16

/-- An access to a device, of a number of bytes. -/
inductive Transfer where
  | stored (n a v : Cell)
  | loaded (n a : Cell)

/-- Which part of the address space the board answers. -/
class Board where
  ram : Cell → Bool
  device : Cell → Bool
  /-- What a device answers to a load, where that follows from the accesses before. -/
  answer : List Transfer → Cell → Option Cell := fun _ _ => none

-- ---------------------------------------------------------------------------
-- Memory areas
-- ---------------------------------------------------------------------------

def CELL_BYTES : Cell := 4
def XTA_BYTES : Cell := 2

def start : Cell := 0x10000
def rstack_lo : Cell := 0x11efc
def rstack_hi : Cell := rstack_lo + 4 * 32
def dstack_lo : Cell := rstack_hi
def dstack_hi : Cell := dstack_lo + 4 * 64
def pad_lo : Cell := dstack_hi
def pad_hi : Cell := pad_lo + 128
def tib_lo : Cell := pad_hi
def tib_hi : Cell := tib_lo + 128
def bss_end : Cell := tib_hi

/-- The cell at `a` lies between `lo` and `hi`. -/
def CellWithin (lo hi a : Cell) : Prop := (a - lo).toNat + 4 ≤ (hi - lo).toNat

instance (lo hi a : Cell) : Decidable (CellWithin lo hi a) :=
  inferInstanceAs (Decidable (_ ≤ _))

theorem offset_sub (lo n : Cell) : lo + n - lo = n := by
  rw [BitVec.add_comm, BitVec.add_sub_cancel]

theorem dstack_room : dstack_hi - dstack_lo - CELL_BYTES = 252 :=
  (congrArg (· - CELL_BYTES) (offset_sub dstack_lo (4 * 64))).trans (by decide)

theorem rstack_room : rstack_hi - rstack_lo - CELL_BYTES = 124 :=
  (congrArg (· - CELL_BYTES) (offset_sub rstack_lo (4 * 32))).trans (by decide)

theorem cellWithin_offset {lo n k : Cell} :
    CellWithin lo (lo + n) (lo + k) ↔ k.toNat + 4 ≤ n.toNat := by
  rw [CellWithin, offset_sub, offset_sub]

-- ---------------------------------------------------------------------------
-- Exceptions and where they restart the interpreter
-- ---------------------------------------------------------------------------

inductive Fault where
  | dstack_overflow
  | dstack_underflow
  | rstack_overflow
  | rstack_underflow
  | unaligned_access
  | bus_access
  | reset
  deriving DecidableEq, Repr

/-- The list of execution tokens `_recover` continues with. -/
def Fault.list : Fault → Cell
  | .dstack_overflow => start + 0xdc
  | .dstack_underflow => start + 0xe2
  | .rstack_overflow => start + 0xe8
  | .rstack_underflow => start + 0xee
  | .unaligned_access => start + 0xf4
  | .bus_access => start + 0xfe
  | .reset => start + 0x10c

end Allwinner.Scp
