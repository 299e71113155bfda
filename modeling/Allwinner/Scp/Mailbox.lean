import Mathlib.Data.Nat.Bitwise
import Mathlib.Logic.Function.Basic
import Allwinner.Scp.Layout

/-!
# Shared buffers of ARM and SCP

The mailbox buffers `mib` and `mob` as the ARM sees them, and the byte accesses
of the SCP to them. Numbers go through the two mailbox channels, texts through
the buffers.
-/

namespace Allwinner.Scp

/-- The bytes of a buffer, by index. -/
abbrev Bytes := Nat → Byte

/-- The first `len` bytes. -/
def Bytes.take (b : Bytes) (len : Nat) : List Byte := (List.range len).map b

def MAX_REQUEST_LEN : Nat := 1000
def MAX_RESPONSE_LEN : Nat := 1000

/-- `Shared_buffer`: a count followed by characters. -/
structure SharedBuffer where
  count : Cell := 0
  chars : Bytes := fun _ => 0

/-- `Shared_buffer::CAPACITY`. -/
def SharedBuffer.CAPACITY : Nat := 1024 - 4

/-- `_swizzled_index`. -/
def swizzledIndex (i : Nat) : Nat := i + 3 - 2 * (i &&& 3)

/-- The byte `i` behind the count, as the SCP loads it: its byte accesses reach
the ARM's byte address with the lowest two bits inverted. -/
def SharedBuffer.scpByte (b : SharedBuffer) (i : Nat) : Byte := b.chars (((4 + i) ^^^ 3) - 4)

/-- The text in the buffer, as the SCP reads it. -/
def SharedBuffer.scpText (b : SharedBuffer) : List Byte :=
  (List.range b.count.toNat).map b.scpByte

-- ---------------------------------------------------------------------------
-- Swizzling
-- ---------------------------------------------------------------------------

theorem xor_three (i : Nat) : i ^^^ 3 = 4 * (i / 4) + (3 - i % 4) := by
  have hdiv : (i ^^^ 3) / 4 = i / 4 := by
    simpa using Nat.xor_div_two_pow (a := i) (b := 3) (n := 2)
  have hmod : (i ^^^ 3) % 4 = i % 4 ^^^ 3 := Nat.xor_mod_two_pow (n := 2)
  have hlow : ∀ r < 4, r ^^^ 3 = 3 - r := by decide
  rw [hlow _ (Nat.mod_lt _ (by decide))] at hmod
  omega

theorem swizzledIndex_eq (i : Nat) : swizzledIndex i = i ^^^ 3 := by
  have hlow : i &&& 3 = i % 4 := Nat.and_two_pow_sub_one_eq_mod i 2
  rw [swizzledIndex, hlow, xor_three]
  omega

/-- The SCP's byte access behind the count is a swizzled index. -/
theorem scpByte_eq (b : SharedBuffer) (i : Nat) : b.scpByte i = b.chars (swizzledIndex i) := by
  have hindex : ((4 + i) ^^^ 3) - 4 = swizzledIndex i := by
    rw [swizzledIndex_eq, xor_three, xor_three]
    omega
  rw [SharedBuffer.scpByte, hindex]

@[simp] theorem swizzledIndex_swizzledIndex (i : Nat) : swizzledIndex (swizzledIndex i) = i := by
  simp [swizzledIndex_eq]

theorem swizzledIndex_inj {i j : Nat} : swizzledIndex i = swizzledIndex j ↔ i = j :=
  Function.LeftInverse.injective swizzledIndex_swizzledIndex |>.eq_iff

-- ---------------------------------------------------------------------------
-- The driver's end of the mailbox
-- ---------------------------------------------------------------------------

/-- `Driver::State`. -/
inductive State where
  | idle | busy
  deriving DecidableEq, Repr

/-- The members of `Driver` apart from its sessions. -/
structure Port where
  lastSubmit : UInt32 := 0
  lastResponse : UInt32 := 0
  state : State := .idle
  mib : SharedBuffer := {}
  mob : SharedBuffer := {}

inductive SubmitError where
  | busy | capacity
  deriving DecidableEq, Repr

/-- The copy loop of `_submit_to_scp` after `n` rounds. -/
def copyToScp (chars : Bytes) (str : Bytes) : Nat → Bytes
  | 0 => chars
  | n + 1 => Function.update (copyToScp chars str n) (swizzledIndex n) (str n)

/-- `_submit_to_scp`: the sequence number goes to the SCP through channel 0. -/
def Port.submitToScp (p : Port) (str : Bytes) (len : Nat) : Port × Except SubmitError UInt32 :=
  if p.state ≠ .idle then (p, .error .busy)
  else if len > SharedBuffer.CAPACITY then (p, .error .capacity)
  else
    let mib : SharedBuffer :=
      { count := BitVec.ofNat 32 (len &&& 0x3ff), chars := copyToScp p.mib.chars str len }
    let seq := p.lastSubmit + 1
    ({ p with mib, lastSubmit := seq, state := .busy }, .ok seq)

inductive RetrieveError where
  | capacity
  deriving DecidableEq, Repr

/-- The copy loop of `_retrieve_from_scp` after `n` rounds. -/
def copyFromScp (chars : Bytes) (dst : Bytes) : Nat → Bytes
  | 0 => dst
  | n + 1 => Function.update (copyFromScp chars dst n) n (chars (swizzledIndex n))

/-- `_retrieve_from_scp`. A fully saturated `mob` counts as overflown. -/
def Port.retrieveFromScp (p : Port) (dst : Bytes) (dstSize : Nat) :
    Bytes × Except RetrieveError Nat :=
  let len := p.mob.count.toNat
  if 1000 ≤ len ∨ len > dstSize then (dst, .error .capacity)
  else (copyFromScp p.mob.chars dst len, .ok len)

-- ---------------------------------------------------------------------------
-- Texts go through unchanged
-- ---------------------------------------------------------------------------

theorem copyToScp_apply (chars str : Bytes) (n i : Nat) :
    copyToScp chars str n (swizzledIndex i) = if i < n then str i else chars (swizzledIndex i) := by
  induction n with
  | zero => rfl
  | succ n ih =>
    by_cases h : i = n
    · subst h
      simp [copyToScp]
    · rw [copyToScp, Function.update_of_ne (mt swizzledIndex_inj.mp h), ih]
      refine if_congr ?_ rfl rfl
      omega

theorem copyFromScp_apply (chars dst : Bytes) (n i : Nat) :
    copyFromScp chars dst n i = if i < n then chars (swizzledIndex i) else dst i := by
  induction n with
  | zero => rfl
  | succ n ih =>
    by_cases h : i = n
    · subst h
      simp [copyFromScp]
    · rw [copyFromScp, Function.update_of_ne h, ih]
      refine if_congr ?_ rfl rfl
      omega

/-- The port after a submission. -/
def Port.submitted (p : Port) (str : Bytes) (len : Nat) : Port :=
  { p with
    mib := { count := BitVec.ofNat 32 (len &&& 0x3ff), chars := copyToScp p.mib.chars str len }
    lastSubmit := p.lastSubmit + 1
    state := .busy }

theorem submitToScp_idle (p : Port) (h : p.state = .idle) (hlen : len ≤ SharedBuffer.CAPACITY) :
    p.submitToScp str len = (p.submitted str len, .ok (p.lastSubmit + 1)) := by
  simp [Port.submitToScp, Port.submitted, h, Nat.not_lt.mpr hlen]

/-- A request length fits the ten bits of the count. -/
theorem count_submitted (p : Port) (hlen : len ≤ MAX_REQUEST_LEN) :
    (p.submitted str len).mib.count.toNat = len := by
  have hmask : len &&& 0x3ff = len := by
    rw [Nat.and_two_pow_sub_one_eq_mod len 10]
    simp only [MAX_REQUEST_LEN] at hlen
    omega
  simp only [MAX_REQUEST_LEN] at hlen
  simp only [Port.submitted, hmask, BitVec.toNat_ofNat]
  omega

theorem scpByte_submitted (p : Port) (hi : i < len) : (p.submitted str len).mib.scpByte i = str i := by
  rw [scpByte_eq]
  simp [Port.submitted, copyToScp_apply, hi]

/-- The SCP reads the very bytes of the request. -/
theorem scpText_submitted (p : Port) (hlen : len ≤ MAX_REQUEST_LEN) :
    (p.submitted str len).mib.scpText = str.take len := by
  rw [SharedBuffer.scpText, count_submitted p hlen, Bytes.take]
  exact List.map_congr_left fun i hi => scpByte_submitted p (List.mem_range.mp hi)

/-- The ARM gets the very bytes of a response that left room in `mob`. -/
theorem retrieveFromScp_ok (p : Port) (dst : Bytes) (hlen : p.mob.count.toNat < 1000)
    (hsize : p.mob.count.toNat ≤ size) :
    p.retrieveFromScp dst size =
      (copyFromScp p.mob.chars dst p.mob.count.toNat, .ok p.mob.count.toNat) := by
  unfold Port.retrieveFromScp
  exact if_neg (by omega)

theorem take_copyFromScp (b : SharedBuffer) (dst : Bytes) :
    (copyFromScp b.chars dst b.count.toNat).take b.count.toNat = b.scpText := by
  rw [SharedBuffer.scpText, Bytes.take]
  refine List.map_congr_left fun i hi => ?_
  rw [scpByte_eq, copyFromScp_apply, if_pos (List.mem_range.mp hi)]

theorem retrieveFromScp_saturated (p : Port) (hlen : 1000 ≤ p.mob.count.toNat) :
    p.retrieveFromScp dst size = (dst, .error .capacity) := by
  simp [Port.retrieveFromScp, hlen]

end Allwinner.Scp
