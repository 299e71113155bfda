import Mathlib.Logic.Function.Basic
import Mathlib.Data.List.Induction
import Allwinner.Library.BitFields

/-!
# Registers written field by field

A device with registers of `n` bits. If its fields are equal or have no bit in common, each of
them holds what was written to it last. A gate that is opened behind its configuration, and
closed before it, never lets anything through unconfigured.
-/

namespace Allwinner.Library.RegisterFile

variable {n : Nat}

/-- The field of `width` bits from bit `shift` on in the register at `offset`. -/
structure Field where
  offset : Nat
  shift : Nat
  width : Nat
  deriving DecidableEq, Repr

abbrev Registers (n : Nat) := Nat → BitVec n

abbrev Write (n : Nat) := Field × BitVec n

namespace Registers

variable (m : Registers n) (f : Field)

def read : BitVec n := BitFields.extract (m f.offset) f.shift f.width

def write (v : BitVec n) : Registers n :=
  Function.update m f.offset (BitFields.insert (m f.offset) f.shift f.width v)

def writes (ws : List (Write n)) : Registers n := ws.foldl (fun m w => m.write w.1 w.2) m

end Registers

namespace Field

variable (f g : Field)

def Fits (n : Nat) : Prop := f.shift + f.width ≤ n

def Apart : Prop := f.offset ≠ g.offset ∨ BitFields.Disjoint f.shift f.width g.shift g.width

/-- Bit `i` of the register at `a` belongs to the field. -/
def Covers (a i : Nat) : Prop := f.offset = a ∧ f.shift ≤ i ∧ i < f.shift + f.width

/-- What remains of a value. -/
def stored (v : BitVec n) : BitVec n := BitVec.ofNat n (v.toNat % 2 ^ f.width)

instance : Decidable (f.Fits n) := inferInstanceAs (Decidable (_ ≤ _))
instance : Decidable (f.Apart g) := inferInstanceAs (Decidable (_ ∨ (_ ∨ _)))
instance (a i : Nat) : Decidable (f.Covers a i) := inferInstanceAs (Decidable (_ ∧ _ ∧ _))

theorem stored_eq {f : Field} {v : BitVec n} (hv : v.toNat < 2 ^ f.width) : f.stored v = v := by
  rw [stored, Nat.mod_eq_of_lt hv, BitVec.ofNat_toNat, BitVec.setWidth_eq]

theorem Apart.symm {f g : Field} (h : f.Apart g) : g.Apart f := by
  obtain h | h := h
  · exact .inl h.symm
  · exact .inr (Or.symm h)

end Field

-- ---------------------------------------------------------------------------
-- Writes
-- ---------------------------------------------------------------------------

section Writes

variable {m : Registers n} {f g : Field} {v : BitVec n} {ws : List (Write n)}

theorem read_write (hf : f.Fits n) : (m.write f v).read f = f.stored v := by
  rw [Registers.read, Registers.write, Function.update_self, BitFields.extract_insert _ _ hf]
  rfl

theorem read_write_of_apart (hf : f.Fits n) (hg : g.Fits n) (h : g.Apart f) :
    (m.write g v).read f = m.read f := by
  unfold Registers.read Registers.write
  by_cases hoffset : f.offset = g.offset
  · rw [hoffset, Function.update_self]
    exact BitFields.extract_insert_of_disjoint _ _ hg hf (h.resolve_left fun hne => hne hoffset.symm)
  · rw [Function.update_of_ne hoffset]

theorem getLsbD_write {a i : Nat} (hf : f.Fits n) (h : ¬ f.Covers a i) :
    (m.write f v a).getLsbD i = (m a).getLsbD i := by
  unfold Registers.write
  by_cases ha : a = f.offset
  · subst ha
    rw [Function.update_self]
    by_cases hi : i < n
    · rw [BitFields.getLsbD_insert _ _ hf hi, if_neg fun hs => h ⟨rfl, hs⟩]
    · rw [BitVec.getLsbD_of_ge _ _ (Nat.not_lt.mp hi), BitVec.getLsbD_of_ge _ _ (Nat.not_lt.mp hi)]
  · rw [Function.update_of_ne ha]

@[simp] theorem writes_nil : m.writes [] = m := rfl

theorem writes_cons (w : Write n) (ws : List (Write n)) : m.writes (w :: ws) = (m.write w.1 w.2).writes ws := rfl

theorem writes_append (ws ws' : List (Write n)) : m.writes (ws ++ ws') = (m.writes ws).writes ws' :=
  List.foldl_append

theorem read_writes_of_apart (hf : f.Fits n) (h : ∀ w ∈ ws, w.1.Fits n ∧ w.1.Apart f) :
    (m.writes ws).read f = m.read f := by
  induction ws generalizing m with
  | nil => rfl
  | cons w ws ih =>
    obtain ⟨hw, hws⟩ := List.forall_mem_cons.mp h
    exact (ih hws).trans (read_write_of_apart hf hw.1 hw.2)

/-- Bits of no field stay. -/
theorem getLsbD_writes {a i : Nat} (h : ∀ w ∈ ws, w.1.Fits n ∧ ¬ w.1.Covers a i) :
    (m.writes ws a).getLsbD i = (m a).getLsbD i := by
  induction ws generalizing m with
  | nil => rfl
  | cons w ws ih =>
    obtain ⟨hw, hws⟩ := List.forall_mem_cons.mp h
    exact (ih hws).trans (getLsbD_write hw.1 hw.2)

/-- What was written to a field last. -/
def last (f : Field) (ws : List (Write n)) : Option (BitVec n) := (ws.reverse.find? (·.1 = f)).map Prod.snd

theorem last_concat (ws : List (Write n)) (w : Write n) :
    last f (ws ++ [w]) = if w.1 = f then some w.2 else last f ws := by
  rw [last, List.reverse_append, List.reverse_singleton, List.singleton_append, List.find?_cons]
  by_cases h : w.1 = f <;> simp [h, last]

theorem last_append (ws ws' : List (Write n)) : last f (ws ++ ws') = (last f ws').or (last f ws) := by
  rw [last, List.reverse_append, List.find?_append]
  cases h : ws'.reverse.find? (·.1 = f) <;> simp [last, h]

theorem last_eq_none (h : ∀ w ∈ ws, w.1 ≠ f) : last f ws = none := by
  rw [last, Option.map_eq_none_iff, List.find?_eq_none]
  intro w hw
  simpa using h w (List.mem_reverse.mp hw)

theorem mem_of_last (h : last f ws = some v) : (f, v) ∈ ws := by
  obtain ⟨⟨g, u⟩, hw, rfl⟩ := Option.map_eq_some_iff.mp h
  obtain rfl : g = f := by simpa using List.find?_some hw
  exact List.mem_reverse.mp (List.mem_of_find?_eq_some hw)

/-- A field of all bits is the register. -/
theorem write_whole (m : Registers n) (a : Nat) (v : BitVec n) : m.write ⟨a, 0, n⟩ v = Function.update m a v := by
  unfold Registers.write
  congr 1
  apply BitVec.eq_of_getLsbD_eq
  intro i hi
  rw [BitFields.getLsbD_insert _ _ (Nat.le_of_eq (Nat.zero_add n)) hi, if_pos (by omega), Nat.sub_zero]

/-- The fields are within their registers, and two of them are the same or apart. -/
structure Layout (n : Nat) (fs : List Field) : Prop where
  fits : ∀ f ∈ fs, f.Fits n
  apart : ∀ f ∈ fs, ∀ g ∈ fs, f = g ∨ f.Apart g

instance (fs : List Field) : Decidable (Layout n fs) :=
  decidable_of_iff ((∀ f ∈ fs, f.Fits n) ∧ ∀ f ∈ fs, ∀ g ∈ fs, f = g ∨ f.Apart g)
    ⟨fun h => ⟨h.1, h.2⟩, fun h => ⟨h.fits, h.apart⟩⟩

/-- A field holds what was written to it last. -/
theorem Layout.read_writes {fs : List Field} (h : Layout n fs) (hws : ∀ w ∈ ws, w.1 ∈ fs) (hf : f ∈ fs) :
    (m.writes ws).read f = ((last f ws).map f.stored).getD (m.read f) := by
  induction ws using List.reverseRecOn with
  | nil => rfl
  | append_singleton ws w ih =>
    have hw := hws w (List.mem_append_right _ List.mem_cons_self)
    have hbefore := ih fun w hw => hws w (List.mem_append_left _ hw)
    rw [writes_append, last_concat]
    by_cases heq : w.1 = f
    · rw [if_pos heq, ← heq]
      exact read_write (h.fits _ hw)
    · rw [if_neg heq, ← hbefore]
      exact read_write_of_apart (h.fits _ hf) (h.fits _ hw) ((h.apart _ hw _ hf).resolve_left heq)

end Writes

-- ---------------------------------------------------------------------------
-- Arrays of items
-- ---------------------------------------------------------------------------

/-- Items of `width` bits, one behind the other from the register at `offset` on. Registers are of `n`
bits, and `stride` apart. -/
structure ItemArray (n stride : Nat) where
  offset : Nat
  width : Nat
  pos : 0 < width
  dvd : width ∣ n
  deriving DecidableEq

namespace ItemArray

variable {stride i j items : Nat} {x y : ItemArray n stride}

def item (x : ItemArray n stride) (i : Nat) : Field :=
  ⟨x.offset + i * x.width / n * stride, i * x.width % n, x.width⟩

/-- `k` items fit a register. -/
theorem item_eq (x : ItemArray n stride) {k : Nat} (hk : n = x.width * k) (i : Nat) :
    x.item i = ⟨x.offset + i / k * stride, x.width * (i % k), x.width⟩ := by
  have hposition {w m : Nat} (hw : 0 < w) (hm : m = w * k) : i * w / m = i / k ∧ i * w % m = w * (i % k) := by
    subst hm
    rw [Nat.mul_comm i]
    exact ⟨Nat.mul_div_mul_left _ _ hw, Nat.mul_mod_mul_left _ _ _⟩
  rw [item, (hposition x.pos hk).1, (hposition x.pos hk).2]

theorem fits (hn : 0 < n) (x : ItemArray n stride) (i : Nat) : (x.item i).Fits n := by
  obtain ⟨k, hk⟩ := x.dvd
  have hlt : i % k < k := Nat.mod_lt _ (Nat.pos_of_ne_zero (by rintro rfl; omega))
  rw [item_eq x hk]
  calc x.width * (i % k) + x.width = x.width * (i % k + 1) := (Nat.mul_succ _ _).symm
    _ ≤ x.width * k := Nat.mul_le_mul_left _ hlt
    _ = n := hk.symm

/-- Two items of an array. -/
theorem apart (hs : 0 < stride) (h : i ≠ j) : (x.item i).Apart (x.item j) := by
  obtain ⟨k, hk⟩ := x.dvd
  rw [item_eq x hk, item_eq x hk]
  by_cases hreg : i / k = j / k
  · have hne : i % k ≠ j % k := fun heq => h (by rw [← Nat.div_add_mod i k, ← Nat.div_add_mod j k, hreg, heq])
    refine .inr ?_
    show x.width * (i % k) + x.width ≤ x.width * (j % k) ∨ x.width * (j % k) + x.width ≤ x.width * (i % k)
    rw [← Nat.mul_succ, ← Nat.mul_succ]
    exact (Nat.lt_or_gt_of_ne hne).imp (Nat.mul_le_mul_left _) (Nat.mul_le_mul_left _)
  · refine .inl fun heq => hreg ?_
    have heq : i / k * stride = j / k * stride := Nat.add_left_cancel heq
    exact Nat.eq_of_mul_eq_mul_right hs heq

/-- The first items of `x` lie before the array `y`. -/
def Before (items : Nat) (x y : ItemArray n stride) : Prop := (x.item (items - 1)).offset < y.offset

instance : Decidable (Before items x y) := inferInstanceAs (Decidable (_ < _))

theorem apart_of_before (h : Before items x y) (hi : i < items) : (x.item i).Apart (y.item j) := by
  have hle : (x.item i).offset ≤ (x.item (items - 1)).offset :=
    Nat.add_le_add_left (Nat.mul_le_mul_right _ (Nat.div_le_div_right (Nat.mul_le_mul_right _ (by omega)))) _
  exact .inl (Nat.ne_of_lt (Nat.lt_of_le_of_lt hle (Nat.lt_of_lt_of_le h (Nat.le_add_right _ _))))

end ItemArray

-- ---------------------------------------------------------------------------
-- Gates
-- ---------------------------------------------------------------------------

/-- A field that lets something through unless it is zero, and what has to be set before. -/
structure Gate (n : Nat) where
  gate : Field
  config : List (Write n)

namespace Gate

variable {c : Gate n} {m : Registers n} {ws ws' : List (Write n)}

/-- If the gate is open, it is configured. -/
def Settled (c : Gate n) (m : Registers n) : Prop := m.read c.gate ≠ 0 → ∀ w ∈ c.config, m.read w.1 = w.2

/-- The gate stays settled at each single write. -/
def Safe (c : Gate n) (ws : List (Write n)) : Prop := ∀ m, c.Settled m → ∀ k, c.Settled (m.writes (ws.take k))

theorem Safe.nil : c.Safe [] := fun _ hm k => by rwa [List.take_nil]

theorem settled_append (h : ∀ k, c.Settled (m.writes (ws.take k))) (h' : c.Safe ws') (k : Nat) :
    c.Settled (m.writes ((ws ++ ws').take k)) := by
  rw [List.take_append, writes_append]
  exact h' _ (h k) _

theorem Safe.append (h : c.Safe ws) (h' : c.Safe ws') : c.Safe (ws ++ ws') := fun m hm =>
  settled_append (h m hm) h'

theorem Safe.flatMap {α : Type*} {f : α → List (Write n)} {xs : List α} (h : ∀ x ∈ xs, c.Safe (f x)) :
    c.Safe (xs.flatMap f) := by
  induction xs with
  | nil => exact .nil
  | cons x xs ih =>
    obtain ⟨hx, hxs⟩ := List.forall_mem_cons.mp h
    exact hx.append (ih hxs)

/-- The gate and its configuration are fields of their own. -/
structure Proper (c : Gate n) : Prop where
  fits : c.gate.Fits n
  config : ∀ w ∈ c.config, w.1.Fits n ∧ w.2.toNat < 2 ^ w.1.width ∧ w.1.Apart c.gate
  apart : ∀ w ∈ c.config, ∀ w' ∈ c.config, w = w' ∨ w.1.Apart w'.1

instance (c : Gate n) : Decidable c.Proper :=
  decidable_of_iff (c.gate.Fits n ∧ (∀ w ∈ c.config, w.1.Fits n ∧ w.2.toNat < 2 ^ w.1.width ∧
      w.1.Apart c.gate) ∧ ∀ w ∈ c.config, ∀ w' ∈ c.config, w = w' ∨ w.1.Apart w'.1)
    ⟨fun h => ⟨h.1, h.2.1, h.2.2⟩, fun h => ⟨h.fits, h.config, h.apart⟩⟩

/-- Writes to other fields. -/
theorem Safe.apart (hc : c.Proper)
    (h : ∀ w ∈ ws, w.1.Fits n ∧ w.1.Apart c.gate ∧ ∀ w' ∈ c.config, w.1.Apart w'.1) : c.Safe ws := by
  intro m hm k hopen w hw
  have hpre : ∀ w ∈ ws.take k, w.1.Fits n ∧ w.1.Apart c.gate ∧ ∀ w' ∈ c.config, w.1.Apart w'.1 :=
    fun w hw => h w (List.mem_of_mem_take hw)
  rw [read_writes_of_apart hc.fits fun w hw => ⟨(hpre w hw).1, (hpre w hw).2.1⟩] at hopen
  rw [read_writes_of_apart (hc.config w hw).1 fun w' hw' => ⟨(hpre w' hw').1, (hpre w' hw').2.2 w hw⟩]
  exact hm hopen w hw

/-- Writing the configuration, or a part of it again, leaves all of it in place. -/
theorem read_config (hc : c.Proper) (hws : ws ⊆ c.config) {w : Write n} (hw : w ∈ c.config)
    (h : w ∈ ws ∨ m.read w.1 = w.2) : (m.writes ws).read w.1 = w.2 := by
  induction ws generalizing m with
  | nil => exact h.resolve_left List.not_mem_nil
  | cons x ws ih =>
    obtain ⟨hx, hws⟩ := List.cons_subset.mp hws
    obtain ⟨hfits, hv, -⟩ := hc.config w hw
    refine ih hws ?_
    by_cases heq : w = x
    · subst heq
      exact .inr ((read_write hfits).trans (Field.stored_eq hv))
    · have hapart : x.1.Apart w.1 := (hc.apart x hx w hw).resolve_left (Ne.symm heq)
      refine h.imp (fun h => (List.mem_cons.mp h).resolve_left heq) fun h => ?_
      exact (read_write_of_apart hfits (hc.config x hx).1 hapart).trans h

/-- Behind its configuration the gate may be opened. -/
theorem Safe.opens (hc : c.Proper) (v : BitVec n) : c.Safe (c.config ++ [(c.gate, v)]) := by
  intro m hm k
  rw [List.take_append, writes_append]
  by_cases hk : k ≤ c.config.length
  · -- the gate is as it was
    have hsub := List.take_subset k c.config
    rw [Nat.sub_eq_zero_of_le hk, List.take_zero, writes_nil]
    intro hopen w hw
    rw [read_writes_of_apart hc.fits fun w hw => ⟨(hc.config w (hsub hw)).1, (hc.config w (hsub hw)).2.2⟩] at hopen
    exact read_config hc hsub hw (.inr (hm hopen w hw))
  · rw [List.take_of_length_le (Nat.le_of_not_le hk)]
    intro _ w hw
    obtain ⟨hfits, -, hapart⟩ := hc.config w hw
    rw [read_writes_of_apart hfits fun x hx => ?_]
    · exact read_config hc (List.Subset.refl _) hw (.inl hw)
    · obtain rfl := List.mem_singleton.mp (List.mem_of_mem_take hx)
      exact ⟨hc.fits, hapart.symm⟩

/-- Behind a closed gate anything may be written. -/
theorem settled_of_closed (hc : c.Proper) (hclosed : m.read c.gate = 0)
    (h : ∀ w ∈ ws, w.1.Fits n ∧ w.1.Apart c.gate) (k : Nat) : c.Settled (m.writes (ws.take k)) := by
  intro hopen
  rw [read_writes_of_apart hc.fits fun w hw => h w (List.mem_of_mem_take hw)] at hopen
  exact absurd hclosed hopen

theorem read_closed (hc : c.Proper) : (m.write c.gate 0).read c.gate = 0 :=
  (read_write hc.fits).trans (Field.stored_eq (Nat.two_pow_pos _))

theorem Safe.closes (hc : c.Proper) (h : ∀ w ∈ ws, w.1.Fits n ∧ w.1.Apart c.gate) :
    c.Safe ((c.gate, 0) :: ws) := by
  intro m hm k
  cases k with
  | zero => exact hm
  | succ k => exact settled_of_closed hc (read_closed hc) h k

end Gate

end Allwinner.Library.RegisterFile
