import Mathlib.Logic.Function.Basic
import Allwinner.Gpu.Objects

/-!
# The books of a session

Which buffers a session has, which capability it keeps for each id, and which of
its `Gpu_vram` objects are at the entrypoint. The books are kept if each buffer
has its `Gpu_vram` under its own id, and no `Gpu_vram` is left over.
-/

namespace Allwinner.Gpu

/-- Buffer objects by their serial number, capabilities, and the buffer objects that the
session's `Gpu_vram`s at the entrypoint stand for. -/
@[ext] structure Books where
  serial : VramId → Option Nat
  cap : VramId → Cap
  managed : Nat → Option Nat

namespace Books

structure Kept (k : Books) : Prop where
  buffer : ∀ id n, k.serial id = some n → ∃ g, k.cap id = some g ∧ k.managed g = some n
  vram : ∀ g n, k.managed g = some n → ∃ id, k.serial id = some n ∧ k.cap id = some g

/-- No two buffers share a serial number. -/
def Distinct (k : Books) : Prop := ∀ id id' n, k.serial id = some n → k.serial id' = some n → id = id'

/-- A new buffer `n` under `id`, with the new `Gpu_vram` `g`. -/
def map (k : Books) (id : VramId) (n g : Nat) : Books where
  serial := Function.update k.serial id (some n)
  cap := Function.update k.cap id (some g)
  managed := Function.update k.managed g (some n)

def importCap (k : Books) (id : VramId) (cap : Cap) : Books :=
  { k with cap := Function.update k.cap id cap }

/-- The session forgets the capability for `id`. -/
def drop (k : Books) (id : VramId) : Books := { k with cap := Function.update k.cap id none }

/-- The `Gpu_vram` `g` is dissolved, the capability for `id` forgotten, and the buffer
freed if possible. -/
def release (k : Books) (id : VramId) (g : Nat) (freed : Bool) : Books where
  serial := if freed then Function.update k.serial id none else k.serial
  cap := Function.update k.cap id none
  managed := Function.update k.managed g none

variable {k : Books} {id g : Nat}

theorem Kept.map (h : k.Kept) (hid : k.serial id = none) (hcap : k.cap id = none)
    (hg : k.managed g = none) : (k.map id n g).Kept where
  buffer id' m hm := by
    by_cases he : id' = id
    · subst he
      obtain rfl : n = m := by simpa [Books.map] using hm
      exact ⟨g, by simp [Books.map], by simp [Books.map]⟩
    · obtain ⟨g', hcap', hmanaged⟩ := h.buffer id' m (by simpa [Books.map, he] using hm)
      have hne : g' ≠ g := by
        rintro rfl
        simp [hg] at hmanaged
      exact ⟨g', by simp [Books.map, he, hcap'], by simp [Books.map, hne, hmanaged]⟩
  vram g' m hm := by
    by_cases he : g' = g
    · subst he
      obtain rfl : n = m := by simpa [Books.map] using hm
      exact ⟨id, by simp [Books.map], by simp [Books.map]⟩
    · obtain ⟨id', hserial, hcap'⟩ := h.vram g' m (by simpa [Books.map, he] using hm)
      have hne : id' ≠ id := by
        rintro rfl
        simp [hid] at hserial
      exact ⟨id', by simp [Books.map, hne, hserial], by simp [Books.map, hne, hcap']⟩

/-- Where an import finds room there is no buffer. -/
theorem Kept.importCap (h : k.Kept) (hcap : k.cap id = none) (c : Cap) : (k.importCap id c).Kept where
  buffer id' m hm := by
    obtain ⟨g', hcap', hmanaged⟩ := h.buffer id' m hm
    have hne : id' ≠ id := by
      rintro rfl
      simp [hcap] at hcap'
    exact ⟨g', by simp [Books.importCap, hne, hcap'], hmanaged⟩
  vram g' m hm := by
    obtain ⟨id', hserial, hcap'⟩ := h.vram g' m hm
    have hne : id' ≠ id := by
      rintro rfl
      simp [hcap] at hcap'
    exact ⟨id', hserial, by simp [Books.importCap, hne, hcap']⟩

theorem Kept.drop_iff (h : k.Kept) : (k.drop id).Kept ↔ k.serial id = none := by
  constructor
  · intro h'
    by_contra hne
    obtain ⟨n, hn⟩ := Option.ne_none_iff_exists'.mp hne
    obtain ⟨g, hcap, -⟩ := h'.buffer id n hn
    simp [drop] at hcap
  · intro hid
    refine ⟨fun id' n hn => ?_, fun g n hn => ?_⟩
    · have hne : id' ≠ id := by
        rintro rfl
        simp [drop, hid] at hn
      obtain ⟨g, hcap, hmanaged⟩ := h.buffer id' n hn
      exact ⟨g, by simp [drop, hne, hcap], hmanaged⟩
    · obtain ⟨id', hserial, hcap⟩ := h.vram g n hn
      have hne : id' ≠ id := by
        rintro rfl
        simp [hid] at hserial
      exact ⟨id', hserial, by simp [drop, hne, hcap]⟩

/-- A buffer goes as a whole, or the books are wrong from then on. -/
theorem Kept.release_iff (h : k.Kept) (hdistinct : k.Distinct) (hcap : k.cap id = some g)
    (hmanaged : k.managed g = some n) :
    (k.release id g freed).Kept ↔ freed = true ∧ (k.serial id).isSome := by
  constructor
  · intro h'
    by_contra hno
    obtain ⟨id', hserial, hcap'⟩ := h.vram g n hmanaged
    have hstays : ∃ id'' m, (k.release id g freed).serial id'' = some m ∧ k.cap id'' = some g := by
      by_cases hfreed : freed = true
      · have hid : k.serial id = none := by simpa [hfreed] using hno
        have hne : id' ≠ id := by
          rintro rfl
          simp [hid] at hserial
        exact ⟨id', n, by simp [release, hfreed, hne, hserial], hcap'⟩
      · exact ⟨id', n, by simp [release, hfreed, hserial], hcap'⟩
    obtain ⟨id'', m, hm, hcap''⟩ := hstays
    obtain ⟨g', hg', hgm⟩ := h'.buffer id'' m hm
    by_cases hne : id'' = id
    · simp [release, hne] at hg'
    · obtain rfl : g = g' := by simpa [release, hne, hcap''] using hg'
      simp [release] at hgm
  · rintro ⟨rfl, hid⟩
    obtain ⟨m, hm⟩ := Option.isSome_iff_exists.mp hid
    obtain ⟨g', hcap', hgm⟩ := h.buffer id m hm
    obtain rfl : g = g' := by simpa [hcap] using hcap'
    obtain rfl : n = m := by simpa [hmanaged] using hgm
    refine ⟨fun id' m' hm' => ?_, fun g' m' hm' => ?_⟩
    · have hne : id' ≠ id := by
        rintro rfl
        simp [release] at hm'
      have hserial : k.serial id' = some m' := by simpa [release, hne] using hm'
      obtain ⟨g', hg', hgm'⟩ := h.buffer id' m' hserial
      have hgne : g' ≠ g := by
        rintro rfl
        have hsame : n = m' := Option.some.inj (hmanaged.symm.trans hgm')
        exact hne (hdistinct id' id m' hserial (hsame ▸ hm))
      exact ⟨g', by simp [release, hne, hg'], by simp [release, hgne, hgm']⟩
    · have hgne : g' ≠ g := by
        rintro rfl
        simp [release] at hm'
      have hbook : k.managed g' = some m' := by simpa [release, hgne] using hm'
      obtain ⟨id', hserial, hg'⟩ := h.vram g' m' hbook
      have hne : id' ≠ id := by
        rintro rfl
        exact hgne (Option.some.inj (hg'.symm.trans hcap))
      exact ⟨id', by simp [release, hne, hserial], by simp [release, hne, hg']⟩

end Books

end Allwinner.Gpu
