import Allwinner.Power.Services

/-!
# The response to `power_info`

The driver takes the response apart again. What it reports is what the registers of the
power-management IC say.
-/

namespace Allwinner.Power

open Library Scp
open Library.RegisterFile (Registers)

/-- `Scp::Response`, which has room for 127 characters. -/
def response (text : List Byte) : List Byte := text.take 127

/-- The tokenizer of the framework, as far as decimal numbers behind a space are concerned. -/
structure Tokenizer where
  /-- `eat_whitespace` and `ascii_to`. -/
  number : List Byte → Nat
  /-- `eat_whitespace` and `next`. -/
  next : List Byte → List Byte
  reads : ∀ {ds rest}, ds ≠ [] → (∀ d ∈ ds, d < 10) → denote 10 0 ds < 2 ^ 32 →
    (∀ c ∈ rest.head?, c = 0x20) → number (0x20 :: (ds.map digit_char ++ rest)) = denote 10 0 ds
  skips : ∀ {ds rest}, ds ≠ [] → (∀ d ∈ ds, d < 10) → (∀ c ∈ rest.head?, c = 0x20) →
    next (0x20 :: (ds.map digit_char ++ rest)) = rest

/-- The next `n` numbers. -/
def Tokenizer.numbers (T : Tokenizer) : Nat → List Byte → List Nat
  | 0, _ => []
  | n + 1, text => T.number text :: T.numbers n (T.next text)

/-- Volts and amperes are thousandths here, where the source has floating-point numbers. -/
structure Pmic_info where
  ac_present : Bool
  battery_present : Bool
  charging : Bool
  voltage : Nat
  charge_current : Nat
  discharge_current : Nat
  remaining_capacity : Nat
  deriving DecidableEq

def Pmic_info.from_scp (T : Tokenizer) (text : List Byte) : Pmic_info :=
  let numbers := fun i => (T.numbers 6 (response text)).getD i 0
  let battery_broken := decide (numbers 5 ≤ 1) && decide (numbers 3 < 100)
  { ac_present := (numbers 0).testBit 7
    battery_present := (numbers 1).testBit 5 && !battery_broken
    charging := (numbers 1).testBit 6
    voltage := numbers 2
    charge_current := numbers 3
    discharge_current := numbers 4
    remaining_capacity := numbers 5 }

theorem numbers_printed (T : Tokenizer) {xs : List Nat} (hxs : ∀ x ∈ xs, x < 2 ^ 32) :
    T.numbers xs.length (number_list xs) = xs := by
  induction xs with
  | nil => rfl
  | cons x xs ih =>
    have hne : (places 10 x).reverse ≠ [] := by simp [places_cons (by decide : 2 ≤ 10) x]
    have hdigits : ∀ d ∈ (places 10 x).reverse, d < 10 := fun d hd => places_lt (by decide) (List.mem_reverse.mp hd)
    have hvalue := denote_places 10 x
    have hrest : ∀ c ∈ (number_list xs).head?, c = 0x20 := by
      cases xs with
      | nil => simp [number_list]
      | cons y ys => simp [number_list]
    have htext : number_list (x :: xs) = 0x20 :: ((places 10 x).reverse.map digit_char ++ number_list xs) := rfl
    rw [List.length_cons, Tokenizer.numbers, htext, T.reads hne hdigits (by rw [hvalue]; exact hxs x List.mem_cons_self)
      hrest, T.skips hne hdigits hrest, hvalue, ih fun y hy => hxs y (List.mem_cons_of_mem _ hy)]

theorem length_numeral_lt {k x : Nat} (hx : x < 10 ^ k) (hk : 0 < k) : (numeral 10 x).length ≤ k := by
  rw [numeral, List.length_map, List.length_reverse]
  unfold places
  split
  · exact hk
  · exact (Nat.digits_length_le_iff (by decide) _).mpr hx

theorem length_number_list {xs : List Nat} (hxs : ∀ x ∈ xs, x < 10 ^ 4) :
    (number_list xs).length ≤ 5 * xs.length := by
  induction xs with
  | nil => exact Nat.le_refl _
  | cons x xs ih =>
    have hx := length_numeral_lt (hxs x List.mem_cons_self) (by decide)
    have hrest := ih fun y hy => hxs y (List.mem_cons_of_mem _ hy)
    have hlength : (number_list (x :: xs)).length = (numeral 10 x).length + 1 + (number_list xs).length := by
      rw [number_list, List.flatMap_cons, List.length_append, List.length_cons]
      rfl
    rw [hlength, List.length_cons]
    omega

variable {R : Registers 8}

theorem readings_lt (R : Registers 8) : ∀ x ∈ readings R, x < 10 ^ 4 := by
  have hlt (a : Nat) := (R a).isLt
  have := hlt 0
  have := hlt 1
  have := hlt 0x78
  have := hlt 0x79
  have := hlt 0x7a
  have := hlt 0x7b
  have := hlt 0x7c
  have := hlt 0x7d
  simp only [readings, List.forall_mem_cons]
  refine ⟨by omega, by omega, by omega, by omega, by omega, by omega, List.forall_mem_nil _⟩

/-- What the registers say. -/
def info (R : Registers 8) : Pmic_info :=
  let wide := fun high low => 16 * (R high).toNat + (R low).toNat
  let capacity := (R 0xb9).toNat % 128
  { ac_present := (R 0).getLsbD 7
    battery_present := (R 1).getLsbD 5 && !(decide (capacity ≤ 1) && decide (wide 0x7a 0x7b < 100))
    charging := (R 1).getLsbD 6
    voltage := wide 0x78 0x79
    charge_current := wide 0x7a 0x7b
    discharge_current := wide 0x7c 0x7d
    remaining_capacity := capacity }

/-- The response fits the driver's buffer, and the driver reads from it what the registers say. -/
theorem response_read (T : Tokenizer) (R : Registers 8) :
    (Service.power_info.answer R).length ≤ 127 ∧
      Pmic_info.from_scp T (Service.power_info.answer R) = info R := by
  have hlt := readings_lt R
  have hshort : (report R).length ≤ 127 := (length_number_list hlt).trans (show 5 * 6 ≤ 127 by decide)
  have hread : T.numbers 6 (response (report R)) = readings R := by
    rw [response, List.take_of_length_le hshort]
    exact numbers_printed T fun x hx => (hlt x hx).trans (by decide)
  refine ⟨hshort, ?_⟩
  rw [Pmic_info.from_scp, show Service.power_info.answer R = report R from rfl, hread]
  rfl

-- ---------------------------------------------------------------------------
-- A tokenizer
-- ---------------------------------------------------------------------------

def is_digit (c : Byte) : Bool := 0x30 ≤ c.toNat && c.toNat ≤ 0x39

/-- A number is as long as its digits. -/
def simple_number (text : List Byte) : Nat :=
  denote 10 0 (((text.dropWhile (· == 0x20)).takeWhile is_digit).map fun c => c.toNat - 0x30)

def simple_next (text : List Byte) : List Byte := (text.dropWhile (· == 0x20)).dropWhile is_digit

theorem digit_char_toNat {d : Nat} (hd : d < 10) : (digit_char d).toNat = 0x30 + d := by
  rw [digit_char, if_pos (by omega), BitVec.toNat_ofNat]
  omega

theorem are_digits {ds : List Nat} (hds : ∀ d ∈ ds, d < 10) : ∀ c ∈ ds.map digit_char, is_digit c = true := by
  intro c hc
  obtain ⟨d, hd, rfl⟩ := List.mem_map.mp hc
  simp only [is_digit, digit_char_toNat (hds d hd), Bool.and_eq_true, decide_eq_true_eq]
  have := hds d hd
  omega

/-- Behind the space is a digit. -/
theorem space_dropped {ds : List Nat} {rest : List Byte} (hne : ds ≠ []) (hds : ∀ d ∈ ds, d < 10) :
    (0x20 :: (ds.map digit_char ++ rest)).dropWhile (· == 0x20) = ds.map digit_char ++ rest := by
  obtain ⟨d, ds, rfl⟩ := List.exists_cons_of_ne_nil hne
  have hdigit : digit_char d ≠ 0x20 := by
    intro h
    have htoNat := digit_char_toNat (hds d List.mem_cons_self)
    rw [h, show (0x20 : Byte).toNat = 32 from rfl] at htoNat
    omega
  rw [List.dropWhile_cons, if_pos (by decide), List.map_cons, List.cons_append, List.dropWhile_cons,
    if_neg (by simpa using hdigit)]

theorem digits_end {rest : List Byte} (hrest : ∀ c ∈ rest.head?, c = 0x20) :
    rest.takeWhile is_digit = [] ∧ rest.dropWhile is_digit = rest := by
  cases rest with
  | nil => exact ⟨rfl, rfl⟩
  | cons c rest =>
    obtain rfl := hrest c rfl
    exact ⟨rfl, rfl⟩

def simple : Tokenizer where
  number := simple_number
  next := simple_next
  reads {ds rest} hne hds _ hrest := by
    have hback : (ds.map digit_char).map (fun c => c.toNat - 0x30) = ds := by
      rw [List.map_map]
      refine (List.map_congr_left fun d hd => ?_).trans (List.map_id ds)
      show (digit_char d).toNat - 0x30 = d
      rw [digit_char_toNat (hds d hd)]
      omega
    rw [simple_number, space_dropped hne hds, List.takeWhile_append_of_pos (are_digits hds), (digits_end hrest).1,
      List.append_nil, hback]
  skips {ds rest} hne hds hrest := by
    rw [simple_next, space_dropped hne hds, List.dropWhile_append_of_pos (are_digits hds), (digits_end hrest).2]

theorem full_registers_read : Pmic_info.from_scp simple (Service.power_info.answer fun _ => 0xff) =
    ⟨true, true, true, 4335, 4335, 4335, 127⟩ := (response_read simple _).2.trans (by decide)

end Allwinner.Power
