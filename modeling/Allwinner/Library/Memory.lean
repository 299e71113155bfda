import Mathlib.Data.Set.Basic
import Mathlib.Order.Interval.Set.Defs
import Mathlib.Tactic.Common
import Mathlib.Algebra.GroupWithZero.Nat

/-!
# Byte-addressed big-endian memory

Half words and cells are read from and written to single bytes, the most
significant byte at the lowest address. Addresses are bit vectors of any
width and wrap around; the laws are for ranges that do not.
-/

namespace Allwinner.Library

abbrev Memory (w : Nat) := BitVec w → BitVec 8

namespace Memory

section Access

variable {w : Nat} (m : Memory w) (a : BitVec w)

def load16 : BitVec 16 := m a ++ m (a + 1)

def load32 : BitVec 32 := load16 m a ++ load16 m (a + 2)

def store8 (v : BitVec 8) : Memory w := fun b => if b = a then v else m b

def store16 (v : BitVec 16) : Memory w :=
  store8 (store8 m a (v.extractLsb' 8 8)) (a + 1) (v.extractLsb' 0 8)

def store32 (v : BitVec 32) : Memory w :=
  store16 (store16 m a (v.extractLsb' 16 16)) (a + 2) (v.extractLsb' 0 16)

/-- Stores the bytes one after the other from `a` on. -/
def storeBytes : Memory w → BitVec w → List (BitVec 8) → Memory w
  | m, _, [] => m
  | m, a, v :: vs => storeBytes (store8 m a v) (a + 1) vs

/-- The `n` bytes from `a` on. -/
def bytes : BitVec w → Nat → List (BitVec 8)
  | _, 0 => []
  | a, n + 1 => m a :: bytes (a + 1) n

end Access

variable {w : Nat} {m m' m'' : Memory w} {a b : BitVec w} {W W' : Set Nat}

theorem toNat_add_ofNat {n : Nat} (h : a.toNat + n < 2 ^ w) :
    (a + BitVec.ofNat w n).toNat = a.toNat + n := by
  rw [BitVec.toNat_add, BitVec.toNat_ofNat, Nat.add_mod_mod, Nat.mod_eq_of_lt h]

@[simp] theorem length_bytes {n : Nat} : (bytes m a n).length = n := by
  induction n generalizing a with
  | zero => rfl
  | succ n ih => simp [bytes, ih]

theorem getElem?_bytes {n i : Nat} (hi : i < n) :
    (bytes m a n)[i]? = some (m (a + BitVec.ofNat w i)) := by
  induction n generalizing a i with
  | zero => omega
  | succ n ih =>
    cases i with
    | zero => simp [bytes]
    | succ i =>
      rw [bytes, List.getElem?_cons_succ, ih (by omega), BitVec.add_assoc,
        show (1 : BitVec w) = BitVec.ofNat w 1 from rfl, ← BitVec.ofNat_add, Nat.add_comm 1]

theorem bytes_add {n k : Nat} :
    bytes m a (n + k) = bytes m a n ++ bytes m (a + BitVec.ofNat w n) k := by
  induction n generalizing a with
  | zero => simp [bytes]
  | succ n ih =>
    rw [Nat.add_right_comm, bytes, ih, bytes, List.cons_append, BitVec.add_assoc,
      show (1 : BitVec w) = BitVec.ofNat w 1 from rfl, ← BitVec.ofNat_add, Nat.add_comm 1]

theorem bytes_take {n k : Nat} (hk : k ≤ n) : (bytes m a n).take k = bytes m a k := by
  obtain ⟨j, rfl⟩ := Nat.exists_eq_add_of_le hk
  rw [bytes_add, List.take_left' length_bytes]

theorem bytes_drop {n k : Nat} (hk : k ≤ n) :
    (bytes m a n).drop k = bytes m (a + BitVec.ofNat w k) (n - k) := by
  obtain ⟨j, rfl⟩ := Nat.exists_eq_add_of_le hk
  rw [bytes_add, List.drop_left' length_bytes, Nat.add_sub_cancel_left]

-- ---------------------------------------------------------------------------
-- What is kept
-- ---------------------------------------------------------------------------

/-- Outside the addresses of `W` both memories are the same. -/
def Keeps (W : Set Nat) (m m' : Memory w) : Prop := ∀ b, b.toNat ∉ W → m' b = m b

theorem Keeps.refl : Keeps W m m := fun _ _ => rfl

theorem Keeps.mono (h : Keeps W m m') (hW : W ⊆ W') : Keeps W' m m' :=
  fun b hb => h b fun hmem => hb (hW hmem)

theorem Keeps.trans (h : Keeps W m m') (h' : Keeps W m' m'') : Keeps W m m'' :=
  fun b hb => (h' b hb).trans (h b hb)

theorem Keeps.union (h : Keeps W m m') (h' : Keeps W' m' m'') : Keeps (W ∪ W') m m'' :=
  (h.mono Set.subset_union_left).trans (h'.mono Set.subset_union_right)

theorem Keeps.symm (h : Keeps W m m') : Keeps W m' m := fun b hb => (h b hb).symm

theorem Keeps.load16 (h : Keeps W m m') (ha : a.toNat + 2 ≤ 2 ^ w)
    (hW : ∀ n, a.toNat ≤ n → n < a.toNat + 2 → n ∉ W) : load16 m' a = load16 m a := by
  have h1 : (a + 1).toNat = a.toNat + 1 := toNat_add_ofNat (n := 1) (by omega)
  rw [Memory.load16, Memory.load16, h a (hW _ (by omega) (by omega)),
    h (a + 1) (hW _ (by omega) (by omega))]

theorem Keeps.load32 (h : Keeps W m m') (ha : a.toNat + 4 ≤ 2 ^ w)
    (hW : ∀ n, a.toNat ≤ n → n < a.toNat + 4 → n ∉ W) : load32 m' a = load32 m a := by
  have h2 : (a + 2).toNat = a.toNat + 2 := toNat_add_ofNat (n := 2) (by omega)
  rw [Memory.load32, Memory.load32,
    h.load16 (by omega) fun n _ _ => hW n (by omega) (by omega),
    h.load16 (by omega) fun n _ _ => hW n (by omega) (by omega)]

theorem Keeps.bytes {n : Nat} (h : Keeps W m m') (ha : a.toNat + n ≤ 2 ^ w)
    (hW : ∀ k, a.toNat ≤ k → k < a.toNat + n → k ∉ W) : bytes m' a n = bytes m a n := by
  induction n generalizing a with
  | zero => rfl
  | succ n ih =>
    rw [Memory.bytes, Memory.bytes, h a (hW _ (by omega) (by omega))]
    cases n with
    | zero => rfl
    | succ n =>
      have h1 : (a + 1).toNat = a.toNat + 1 := toNat_add_ofNat (n := 1) (by omega)
      rw [ih (by omega) fun k _ _ => hW k (by omega) (by omega)]

/-- The `n` bytes from `a` on lie outside of `W`. -/
def Apart (W : Set Nat) (a : BitVec w) (n : Nat) : Prop := ∀ i < n, (a + BitVec.ofNat w i).toNat ∉ W

theorem Apart.head {n : Nat} (h : Apart W a (n + 1)) : a.toNat ∉ W := by simpa using h 0 n.succ_pos

theorem Apart.tail {n : Nat} (h : Apart W a (n + 1)) : Apart W (a + 1) n := by
  intro i hi
  rw [BitVec.add_assoc, show (1 : BitVec w) = BitVec.ofNat w 1 from rfl, ← BitVec.ofNat_add,
    Nat.add_comm 1]
  exact h (i + 1) (Nat.succ_lt_succ hi)

theorem Apart.mono {n k : Nat} (h : Apart W a n) (hk : k ≤ n) : Apart W a k :=
  fun i hi => h i (Nat.lt_of_lt_of_le hi hk)

theorem Keeps.bytes_apart {n : Nat} (h : Keeps W m m') (ha : Apart W a n) :
    Memory.bytes m' a n = Memory.bytes m a n := by
  induction n generalizing a with
  | zero => rfl
  | succ n ih => rw [Memory.bytes, Memory.bytes, h a ha.head, ih ha.tail]

-- ---------------------------------------------------------------------------
-- Stores
-- ---------------------------------------------------------------------------

theorem store8_same (v : BitVec 8) : store8 m a v a = v := if_pos rfl

theorem store8_keeps (v : BitVec 8) : Keeps (Set.Ico a.toNat (a.toNat + 1)) m (store8 m a v) := by
  intro b hb
  refine if_neg ?_
  rintro rfl
  exact hb ⟨Nat.le_refl _, Nat.lt_succ_self _⟩

theorem store16_keeps (v : BitVec 16) (ha : a.toNat + 2 ≤ 2 ^ w) :
    Keeps (Set.Ico a.toNat (a.toNat + 2)) m (store16 m a v) := by
  have h1 : (a + 1).toNat = a.toNat + 1 := toNat_add_ofNat (n := 1) (by omega)
  refine ((store8_keeps _).union (store8_keeps _)).mono ?_
  rintro n (⟨_, _⟩ | ⟨_, _⟩) <;> constructor <;> omega

theorem store32_keeps (v : BitVec 32) (ha : a.toNat + 4 ≤ 2 ^ w) :
    Keeps (Set.Ico a.toNat (a.toNat + 4)) m (store32 m a v) := by
  have h2 : (a + 2).toNat = a.toNat + 2 := toNat_add_ofNat (n := 2) (by omega)
  refine ((store16_keeps _ (by omega)).union (store16_keeps _ (by omega))).mono ?_
  rintro n (⟨_, _⟩ | ⟨_, _⟩) <;> constructor <;> omega

theorem load16_store16 (v : BitVec 16) (ha : a.toNat + 2 ≤ 2 ^ w) :
    load16 (store16 m a v) a = v := by
  have h : a ≠ a + 1 := by
    have h1 : (a + 1).toNat = a.toNat + 1 := toNat_add_ofNat (n := 1) (by omega)
    intro he
    have := congrArg BitVec.toNat he
    omega
  simp only [load16, store16, store8, if_neg h, if_true]
  exact BitVec.extractLsb'_append_extractLsb'_eq_extractLsb' (by rfl) |>.trans (by simp)

theorem load32_store32 (v : BitVec 32) (ha : a.toNat + 4 ≤ 2 ^ w) :
    load32 (store32 m a v) a = v := by
  have h2 : (a + 2).toNat = a.toNat + 2 := toNat_add_ofNat (n := 2) (by omega)
  have hhigh : load16 (store32 m a v) a = v.extractLsb' 16 16 := by
    rw [store32, (store16_keeps _ (by omega)).load16 (by omega) fun n _ _ hn => by
      have := hn.1
      omega]
    exact load16_store16 _ (by omega)
  rw [load32, hhigh, store32, load16_store16 _ (by omega)]
  exact BitVec.extractLsb'_append_extractLsb'_eq_extractLsb' (by rfl) |>.trans (by simp)

/-- The later of two stores to one cell stays. -/
theorem store32_store32 (v v' : BitVec 32) : store32 (store32 m a v) a v' = store32 m a v' := by
  funext c
  simp only [store32, store16, store8]
  split_ifs <;> rfl

theorem storeBytes_keeps {vs : List (BitVec 8)} (ha : a.toNat + vs.length ≤ 2 ^ w) :
    Keeps (Set.Ico a.toNat (a.toNat + vs.length)) m (storeBytes m a vs) := by
  induction vs generalizing m a with
  | nil => exact .refl
  | cons v vs ih =>
    rw [List.length_cons] at ha ⊢
    cases vs with
    | nil => exact store8_keeps v
    | cons v' vs =>
      have h1 : (a + 1).toNat = a.toNat + 1 := toNat_add_ofNat (n := 1) (by simp at ha; omega)
      refine ((store8_keeps v).union (ih (by omega))).mono ?_
      rintro n (⟨_, _⟩ | ⟨_, _⟩) <;> constructor <;> omega

theorem bytes_storeBytes {vs : List (BitVec 8)} (ha : a.toNat + vs.length ≤ 2 ^ w) :
    bytes (storeBytes m a vs) a vs.length = vs := by
  induction vs generalizing m a with
  | nil => rfl
  | cons v vs ih =>
    rw [List.length_cons] at ha
    rw [List.length_cons, bytes, storeBytes]
    cases vs with
    | nil => rw [storeBytes, store8_same]; rfl
    | cons v' vs =>
      have h1 : (a + 1).toNat = a.toNat + 1 := toNat_add_ofNat (n := 1) (by simp at ha; omega)
      rw [ih (by omega), storeBytes_keeps (by omega) a (by rw [Set.mem_Ico]; omega), store8_same]

-- ---------------------------------------------------------------------------
-- Segments
-- ---------------------------------------------------------------------------

/-- Stores the segments one after the other. -/
def load (m : Memory w) (segs : List (BitVec w × List (BitVec 8))) : Memory w :=
  segs.foldl (fun m s => storeBytes m s.1 s.2) m

theorem load_kept {segs : List (BitVec w × List (BitVec 8))} {n : Nat}
    (hw : ∀ s ∈ segs, s.1.toNat + s.2.length ≤ 2 ^ w) (ha : a.toNat + n ≤ 2 ^ w)
    (h : ∀ s ∈ segs, a.toNat + n ≤ s.1.toNat) : bytes (load m segs) a n = bytes m a n := by
  induction segs generalizing m with
  | nil => rfl
  | cons s segs ih =>
    have hs := h s (List.mem_cons_self ..)
    rw [load, List.foldl_cons, ← load, ih (fun t ht => hw t (List.mem_cons_of_mem _ ht))
      fun t ht => h t (List.mem_cons_of_mem _ ht)]
    refine (storeBytes_keeps (hw s (List.mem_cons_self ..))).bytes ha fun k _ _ hk => ?_
    have := hk.1
    omega

/-- In ascending order no segment is overwritten. -/
theorem bytes_load {segs : List (BitVec w × List (BitVec 8))}
    (h : segs.Pairwise fun s t => s.1.toNat + s.2.length ≤ t.1.toNat)
    (hw : ∀ s ∈ segs, s.1.toNat + s.2.length ≤ 2 ^ w) {s : BitVec w × List (BitVec 8)}
    (hs : s ∈ segs) : bytes (load m segs) s.1 s.2.length = s.2 := by
  induction segs generalizing m with
  | nil => cases hs
  | cons t segs ih =>
    obtain ⟨ht, hrest⟩ := List.pairwise_cons.mp h
    have hw' : ∀ s ∈ segs, s.1.toNat + s.2.length ≤ 2 ^ w :=
      fun s hs => hw s (List.mem_cons_of_mem _ hs)
    rw [load, List.foldl_cons, ← load]
    obtain rfl | hs := List.mem_cons.mp hs
    · have hroom := hw s (List.mem_cons_self ..)
      rw [load_kept hw' hroom ht]
      exact bytes_storeBytes hroom
    · exact ih hrest hw' hs

/-- Half words and cells as they are stored. -/
def bytes16 (v : BitVec 16) : List (BitVec 8) := [v.extractLsb' 8 8, v.extractLsb' 0 8]

def bytes32 (v : BitVec 32) : List (BitVec 8) :=
  bytes16 (v.extractLsb' 16 16) ++ bytes16 (v.extractLsb' 0 16)

@[simp] theorem length_bytes16 (v : BitVec 16) : (bytes16 v).length = 2 := rfl

@[simp] theorem length_bytes32 (v : BitVec 32) : (bytes32 v).length = 4 := rfl

theorem load16_of_bytes {v : BitVec 16} (h : bytes m a 2 = bytes16 v) : load16 m a = v := by
  simp only [bytes, bytes16, List.cons.injEq, and_true] at h
  rw [load16, h.1, h.2]
  exact BitVec.extractLsb'_append_extractLsb'_eq_extractLsb' (by rfl) |>.trans (by simp)

theorem load32_of_bytes {v : BitVec 32} (h : bytes m a 4 = bytes32 v) : load32 m a = v := by
  have hsplit : bytes m a 2 ++ bytes m (a + 2) 2 = bytes32 v := (bytes_add (n := 2)).symm.trans h
  obtain ⟨hhigh, hlow⟩ := List.append_inj hsplit rfl
  rw [load32, load16_of_bytes hhigh, load16_of_bytes hlow]
  exact BitVec.extractLsb'_append_extractLsb'_eq_extractLsb' (by rfl) |>.trans (by simp)

theorem bytes_store8 {v : BitVec 8} : bytes (store8 m a v) a 1 = [v] := by
  rw [bytes, store8_same]
  rfl

theorem bytes_store16 {v : BitVec 16} (ha : a.toNat + 2 ≤ 2 ^ w) :
    bytes (store16 m a v) a 2 = bytes16 v :=
  (bytes_storeBytes ha : bytes (storeBytes m a (bytes16 v)) a _ = bytes16 v)

end Memory

end Allwinner.Library
