import Allwinner.Library.RegisterFile
import Allwinner.Library.Segments
import Allwinner.Scp.Formatting
import Allwinner.Scp.Scanner

/-!
# Commands to the power-management IC

Requests of a few words that set registers of the IC, or single bits of them. They are run on a
stack and the registers. The platform driver switches supplies this way, and the power driver
configures charging.
-/

namespace Allwinner.Power

open Library Scp
open Library.RegisterFile (Registers Field Write writes_cons writes_append write_whole)

/-- The words of a command. -/
inductive Word
  | number (v : Cell) | fetch | store | delay | dup | swap | and | or

namespace Word

def text : Word → List Byte
  | number v => numeral 16 v.toNat
  | fetch => ascii "pmic@"
  | store => ascii "pmic!"
  | delay => ascii "udelay"
  | dup => ascii "dup"
  | swap => ascii "swap"
  | and => ascii "and"
  | or => ascii "or"

/-- What a word does to the stack and the registers of the IC. Both are bytes wide on its side. -/
def eval : Word → List Cell × Registers 8 → Option (List Cell × Registers 8)
  | number v, (st, R) => some (v :: st, R)
  | fetch, (r :: st, R) => if r.toNat < 256 then some ((R r.toNat).setWidth 32 :: st, R) else none
  | store, (r :: v :: st, R) =>
    if r.toNat < 256 ∧ v.toNat < 256 then some (st, Function.update R r.toNat (v.setWidth 8)) else none
  | delay, (_ :: st, R) => some (st, R)
  | dup, (a :: st, R) => some (a :: a :: st, R)
  | swap, (b :: a :: st, R) => some (a :: b :: st, R)
  | and, (b :: a :: st, R) => some ((a &&& b) :: st, R)
  | or, (b :: a :: st, R) => some ((a ||| b) :: st, R)
  | _, _ => none

end Word

def run (ws : List Word) (s : List Cell × Registers 8) : Option (List Cell × Registers 8) :=
  ws.foldlM (fun s w => w.eval s) s

theorem run_cons (w : Word) (ws : List Word) (s : List Cell × Registers 8) :
    run (w :: ws) s = (w.eval s).bind (run ws) := List.foldlM_cons

theorem run_append (ws ws' : List Word) (s : List Cell × Registers 8) :
    run (ws ++ ws') s = (run ws s).bind (run ws') := List.foldlM_append

-- ---------------------------------------------------------------------------
-- Phrases
-- ---------------------------------------------------------------------------

/-- What the drivers say: a register gets a value, or a bit of it is set or cleared. `update` sets a
bit with the register number on the stack all the time. -/
inductive Phrase
  | put (r v : Byte)
  | set (r : Byte) (k : Fin 8)
  | clear (r : Byte) (k : Fin 8)
  | update (r : Byte) (k : Fin 8)
  | wait (v : Byte)

namespace Phrase

def bit (k : Fin 8) : Byte := 1#8 <<< k.val

def byte (v : Byte) : Word := .number (v.setWidth 32)

def words : Phrase → List Word
  | put r v => [byte v, byte r, .store]
  | set r k => [byte r, .fetch, byte (bit k), .or, byte r, .store]
  | clear r k => [byte r, .fetch, byte (~~~bit k), .and, byte r, .store]
  | update r k => [byte r, .dup, .fetch, byte (bit k), .or, .swap, .store]
  | wait v => [byte v, .delay]

/-- The fields that are set. -/
def writes : Phrase → List (Write 8)
  | put r v => [(⟨r.toNat, 0, 8⟩, v)]
  | set r k => [(⟨r.toNat, k, 1⟩, 1)]
  | clear r k => [(⟨r.toNat, k, 1⟩, 0)]
  | update r k => [(⟨r.toNat, k, 1⟩, 1)]
  | wait _ => []

theorem byte_toNat (v : Byte) : (v.setWidth 32 : Cell).toNat = v.toNat ∧ v.toNat < 256 := by
  rw [BitVec.toNat_setWidth]
  have := v.isLt
  omega

theorem set_bit (x : Byte) (k : Fin 8) : BitFields.insert x k 1 1 = x ||| bit k := by
  revert x k
  decide +kernel

theorem clear_bit (x : Byte) (k : Fin 8) : BitFields.insert x k 1 0 = x &&& ~~~bit k := by
  revert x k
  decide +kernel

variable (st : List Cell) (R : Registers 8)

theorem eval_fetch (r : Byte) : Word.fetch.eval (r.setWidth 32 :: st, R) =
    some ((R r.toNat).setWidth 32 :: st, R) := by
  rw [Word.eval, (byte_toNat r).1, if_pos (byte_toNat r).2]

theorem eval_store (r v : Byte) : Word.store.eval (r.setWidth 32 :: v.setWidth 32 :: st, R) =
    some (st, Function.update R r.toNat v) := by
  rw [Word.eval, (byte_toNat r).1, (byte_toNat v).1, if_pos ⟨(byte_toNat r).2, (byte_toNat v).2⟩,
    BitVec.setWidth_setWidth_of_le _ (by decide), BitVec.setWidth_eq]

/-- A phrase does what it says, and the stack is as it was. -/
theorem sound (p : Phrase) : run p.words (st, R) = some (st, R.writes p.writes) := by
  have hor (x y : Byte) : (x.setWidth 32 ||| y.setWidth 32 : Cell) = (x ||| y).setWidth 32 :=
    BitVec.setWidth_or.symm
  have hand (x y : Byte) : (x.setWidth 32 &&& y.setWidth 32 : Cell) = (x &&& y).setWidth 32 :=
    BitVec.setWidth_and.symm
  cases p with
  | put r v =>
    show (Word.store.eval (r.setWidth 32 :: v.setWidth 32 :: st, R)).bind some = _
    rw [eval_store, writes, writes_cons, write_whole]
    rfl
  | set r k =>
    show (Word.fetch.eval (r.setWidth 32 :: st, R)).bind (run [byte (bit k), .or, byte r, .store]) = _
    rw [eval_fetch]
    show (Word.store.eval
      (r.setWidth 32 :: ((R r.toNat).setWidth 32 ||| (bit k).setWidth 32) :: st, R)).bind some = _
    rw [hor, eval_store, writes, writes_cons, Registers.write, set_bit]
    rfl
  | clear r k =>
    show (Word.fetch.eval (r.setWidth 32 :: st, R)).bind (run [byte (~~~bit k), .and, byte r, .store]) = _
    rw [eval_fetch]
    show (Word.store.eval
      (r.setWidth 32 :: ((R r.toNat).setWidth 32 &&& (~~~bit k).setWidth 32) :: st, R)).bind some = _
    rw [hand, eval_store, writes, writes_cons, Registers.write, clear_bit]
    rfl
  | update r k =>
    show (Word.fetch.eval (r.setWidth 32 :: r.setWidth 32 :: st, R)).bind
      (run [byte (bit k), .or, .swap, .store]) = _
    rw [eval_fetch]
    show (Word.store.eval
      (r.setWidth 32 :: ((R r.toNat).setWidth 32 ||| (bit k).setWidth 32) :: st, R)).bind some = _
    rw [hor, eval_store, writes, writes_cons, Registers.write, set_bit]
    rfl
  | wait v => rfl

end Phrase

-- ---------------------------------------------------------------------------
-- Commands
-- ---------------------------------------------------------------------------

/-- A request and what it says. -/
structure Command where
  text : List Byte
  phrases : List Phrase
  reads : pieces isSpace text = (phrases.flatMap Phrase.words).map Word.text

namespace Command

def words (c : Command) : List Word := c.phrases.flatMap Phrase.words

def writes (c : Command) : List (Write 8) := c.phrases.flatMap Phrase.writes

end Command

/-- Supplies of the platform driver. -/
def gpio0_ldo_on : Command :=
  ⟨ascii "1a 91 pmic!  3 90 pmic!  a udelay ", [.put 0x91 0x1a, .put 0x90 3, .wait 0xa], by decide +kernel⟩

def gpio0_ldo_off : Command :=
  ⟨ascii "8 91 pmic!  a udelay ", [.put 0x91 8, .wait 0xa], by decide +kernel⟩

def csi_power_on : Command :=
  ⟨["b 28 pmic! ", "13 pmic@ 20 or 13 pmic! ", "32 udelay ", "10 1b pmic! ", "12 pmic@ 4 or 12 pmic! ",
    "a udelay ", "15 17 pmic! ", "12 pmic@ 20 or 12 pmic! ", "a udelay "].flatMap ascii,
  [.put 0x28 0xb, .set 0x13 5, .wait 0x32, .put 0x1b 0x10, .set 0x12 2, .wait 0xa, .put 0x17 0x15, .set 0x12 5,
    .wait 0xa], by decide +kernel⟩

def csi_power_off : Command :=
  ⟨["12 pmic@ df and 12 pmic! ", "15 17 pmic! ", "12 pmic@ fb and 12 pmic! ", "0 1b pmic! ",
    "13 pmic@ df and 13 pmic! ", "17 28 pmic! "].flatMap ascii,
  [.clear 0x12 5, .put 0x17 0x15, .clear 0x12 2, .put 0x1b 0, .clear 0x13 5, .put 0x28 0x17], by decide +kernel⟩

def wifi_power_on : Command :=
  ⟨["b 18 pmic! ", "12 pmic@ 40 or 12 pmic! ", "a udelay "].flatMap ascii,
  [.put 0x18 0xb, .set 0x12 6, .wait 0xa], by decide +kernel⟩

def wifi_power_off : Command :=
  ⟨["12 pmic@ bf and 12 pmic! ", "1a 18 pmic! "].flatMap ascii, [.clear 0x12 6, .put 0x18 0x1a], by decide +kernel⟩

-- What the power driver configures at its start, with the source's reasons.

/-- The TS pin is an input. Otherwise charging is not activated when connecting A/C. -/
def configure_ts_pin : Command := ⟨ascii "84 pmic@  4 or  84 pmic!", [.set 0x84 2], by decide +kernel⟩

/-- V-hold is 4.5 V. -/
def increase_vhold : Command := ⟨ascii "29 30 pmic!", [.put 0x30 0x29], by decide +kernel⟩

/-- When a charger is connected, 1500 mA are allowed. -/
def increase_charge_limit : Command := ⟨ascii "38 35 pmic!", [.put 0x35 0x38], by decide +kernel⟩

/-- Whenever charging starts or ends the gauge is enabled anew. -/
def enable_gauge : Command :=
  ⟨ascii "0 b8 pmic!  c0 b8 pmic!", [.put 0xb8 0, .put 0xb8 0xc0], by decide +kernel⟩

def soft_restart : Command := ⟨ascii "31 dup pmic@  40 or  swap pmic!", [.update 0x31 6], by decide +kernel⟩

def power_disable : Command := ⟨ascii "32 dup pmic@  80 or  swap pmic!", [.update 0x32 7], by decide +kernel⟩

end Allwinner.Power
