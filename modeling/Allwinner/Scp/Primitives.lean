import Allwinner.Scp.Registers

/-!
# The primitives on the registers

What a primitive of the register machine does to the registers and to memory is what its turn of the token
machine does to the state they show, and it fails where the turn fails.
-/

namespace Allwinner.Scp

open Library Memory

-- ---------------------------------------------------------------------------
-- A primitive follows its turn
-- ---------------------------------------------------------------------------

namespace Cpu

variable {c : Cpu} {s : Forth} {v a b : Cell} {ds : List Cell} {r r' : Ip} {rs : List Ip}

/-- What the token machine does is done, and its faults are those of the registers. Nothing is said where it
runs wild. -/
def Follows (m : M Unit) (c : Cpu) (t : Turn) : Prop :=
  t ≠ .wild → wp m (fun _ c' => ∃ s', t = .on s' ∧ c'.Shows s')
    (fun f c' => ∃ s', t = .fault f s' ∧ c'.Backs s') c

theorem follows_on {m : M Unit} (h : wp m (fun _ c' => c'.Shows s) (fun _ _ => False) c) : Follows m c (.on s) :=
  fun _ => wp_mono (fun _ _ hc => ⟨s, rfl, hc⟩) (fun _ _ hc => hc.elim) h

theorem follows_wild (m : M Unit) (c : Cpu) : Follows m c .wild := fun h => absurd rfl h

theorem follows_fault {f : Fault} (h : c.Backs s) : Follows (throw f) c (.fault f s) := fun _ => ⟨s, rfl, h⟩

section Rules

variable {m k : M Unit} {t : Turn}

theorem follows_modify {g : Cpu → Cpu} (h : (g c).Shows s) : Follows (modify g) c (.on s) := fun _ => ⟨s, rfl, h⟩

theorem Follows.bind {f : Forth → Turn} (h : Follows m c t)
    (hk : ∀ c' s', t = .on s' → c'.Shows s' → Follows k c' (f s')) : Follows (m >>= fun _ => k) c (t.bind f) := by
  intro hwild
  rw [wp_bind]
  cases t with
  | wild => exact absurd rfl hwild
  | fault e s' =>
    refine wp_mono (fun _ c' hc => ?_) (fun f' c' hc => hc) (h (by simp))
    obtain ⟨_, heq, -⟩ := hc
    cases heq
  | on s' =>
    refine wp_mono (fun _ c' hc => ?_) (fun f' c' hc => ?_) (h (by simp))
    · obtain ⟨_, heq, hc⟩ := hc
      cases heq
      exact hk c' s' rfl hc hwild
    · obtain ⟨_, heq, -⟩ := hc
      cases heq

/-- One item is checked for. -/
theorem one_follows {f : Cell → List Cell → Turn} (h : c.Shows s)
    (hk : ∀ a ds, s.ds = a :: ds → Follows k c (f a ds)) :
    Follows (checkDstackOneItem >>= fun _ => k) c (s.one f) := by
  intro hwild
  rw [wp_bind, wp_checkDstackOneItem, h.r14_toNat]
  unfold Forth.one at hwild ⊢
  cases hds : s.ds with
  | nil => exact ⟨s, rfl, h.toBacks⟩
  | cons a ds =>
    rw [hds] at hwild
    rw [if_neg (by rw [List.length_cons]; omega)]
    exact hk a ds hds hwild

theorem two_follows {f : Cell → Cell → List Cell → Turn} (h : c.Shows s)
    (hk : ∀ b a ds, s.ds = b :: a :: ds → Follows k c (f a b ds)) :
    Follows (checkDstackTwoItems >>= fun _ => k) c (s.two f) := by
  intro hwild
  rw [wp_bind, wp_checkDstackTwoItems, h.r14_toNat]
  unfold Forth.two at hwild ⊢
  cases hds : s.ds with
  | nil => exact ⟨s, rfl, h.toBacks⟩
  | cons b ds =>
    cases ds with
    | nil => exact ⟨s, rfl, h.toBacks⟩
    | cons a ds =>
      rw [hds] at hwild
      rw [if_neg (by rw [List.length_cons, List.length_cons]; omega)]
      exact hk b a ds hds hwild

theorem oner_follows {f : Ip → List Ip → Turn} (h : c.Shows s)
    (hk : ∀ r rs, s.rs = r :: rs → Follows k c (f r rs)) :
    Follows (checkRstackOneItem >>= fun _ => k) c (s.oner f) := by
  intro hwild
  rw [wp_bind, wp_checkRstackOneItem, h.r15_toNat]
  unfold Forth.oner at hwild ⊢
  cases hrs : s.rs with
  | nil => exact ⟨s, rfl, h.toBacks⟩
  | cons r rs =>
    rw [hrs] at hwild
    rw [if_neg (by rw [List.length_cons]; omega)]
    exact hk r rs hrs hwild

theorem pushd_follows (h : c.Shows s) (v : Cell) : Follows (pushd v) c (s.pushd true v) := by
  intro _
  rw [wp_pushd, h.r14_toNat, Forth.pushd, Forth.dstack_items]
  by_cases hfull : 63 ≤ s.ds.length
  · rw [if_pos (by omega), if_pos (by simpa using hfull)]
    exact ⟨s, rfl, h.toBacks⟩
  · rw [if_neg (by omega), if_neg (by simpa using hfull)]
    exact ⟨_, rfl, h.storeD (by omega) v⟩

theorem popd_follows (h : c.Shows s) : Follows popd c (s.one fun _ ds => .on { s with ds }) :=
  one_follows h fun _ _ hds => follows_modify (h.loadD hds)

theorem full_iff {n : Nat} : (true && decide (Forth.rstack_items ≤ n)) = true ↔ 31 ≤ n := by
  rw [Bool.true_and, decide_eq_true_iff]
  exact Iff.rfl

theorem room_follows (h : c.Shows s) (hk : s.rs.length < 31 → Follows k c t) :
    Follows (checkRstackOverflow >>= fun _ => k) c
      (if true && Forth.rstack_items ≤ s.rs.length then .fault .rstack_overflow s else t) := by
  intro hwild
  rw [wp_bind, wp_checkRstackOverflow, h.r15_toNat]
  by_cases hfull : 31 ≤ s.rs.length
  · rw [if_pos (by omega), if_pos (full_iff.mpr hfull)]
    exact ⟨s, rfl, h.toBacks⟩
  · rw [if_neg (mt full_iff.mp hfull)] at hwild
    rw [if_neg (show ¬ 124 ≤ 4 * s.rs.length by omega), if_neg (mt full_iff.mp hfull)]
    exact hk (by omega) hwild

/-- The state is read first. -/
theorem get_follows {g : Cpu → M Unit} (h : Follows (g c) c t) : Follows (get >>= g) c t := by
  intro hwild
  rw [wp_bind, wp_get]
  exact h hwild

/-- The registers change first. -/
theorem modify_follows {g : Cpu → Cpu} (h : Follows k (g c) t) : Follows (modify g >>= fun _ => k) c t := by
  intro hwild
  rw [wp_bind, wp_modify]
  exact h hwild

end Rules

-- ---------------------------------------------------------------------------
-- Memory accesses
-- ---------------------------------------------------------------------------

/-- What is written lies in the cell of `a`, and does not depend on what was there. -/
def Writes (a : Cell) (w : Memory 32 → Memory 32) : Prop :=
  ∀ m m' b, (w m b = m b ∧ w m' b = m' b) ∨ (w m b = w m' b ∧ b.toNat / 4 = a.toNat / 4)

theorem writes8 (a : Cell) (v : Byte) : Writes a (store8 · a v) := by
  intro m m' b
  by_cases hb : b = a
  · exact .inr ⟨by simp [store8, hb], by rw [hb]⟩
  · exact .inl (by simp [store8, hb])

theorem Writes.comp {w w' : Memory 32 → Memory 32} (h : Writes a w) (h' : Writes b w')
    (hcell : b.toNat / 4 = a.toNat / 4) :
    Writes a fun m => w' (w m) := by
  intro m m' k
  obtain ⟨hm, hm'⟩ | ⟨heq, hk⟩ := h' (w m) (w m') k
  · dsimp only
    rw [hm, hm']
    exact h m m' k
  · exact .inr ⟨heq, hk.trans hcell⟩

theorem writes16 {a : Cell} (ha : a.toNat % 2 = 0) (v : Half) : Writes a (store16 · a v) := by
  have hnext : (a + 1).toNat = a.toNat + 1 := toNat_add_ofNat (n := 1) (by have := a.isLt; omega)
  exact (writes8 a _).comp (writes8 (a + 1) _) (by omega)

theorem writes32 {a : Cell} (ha : a.toNat % 4 = 0) (v : Cell) : Writes a (store32 · a v) := by
  have hnext : (a + 2).toNat = a.toNat + 2 := toNat_add_ofNat (n := 2) (by have := a.isLt; omega)
  exact (writes16 (by omega) _).comp (writes16 (a := a + 2) (by omega) _) (by omega)

/-- A store where the token machine stores. -/
theorem Shows.stores {w : Memory 32 → Memory 32} (h : c.Shows s) (hw : Writes a w) (hstacked : stacked a = false)
    (hfixed : fixed a = false) : { c with mem := w c.mem }.Shows { s with mem := w s.mem } := by
  refine h.with_mem (fun b hb => ?_) (fun b hb => ?_) fun b hb => ?_
  all_goals obtain ⟨hm, hm'⟩ | ⟨heq, hcell⟩ := hw c.mem s.mem b
  · rw [hm, hm']
    exact h.alike b hb
  · exact heq
  · exact hm
  · rw [stacked_congr hcell, hstacked] at hb
    cases hb
  · exact hm'
  · rw [fixed_congr hcell, hfixed] at hb
    cases hb

section Accesses

variable [Board] {n : Cell} {f : Fault} {read : Memory 32 → Cell} {mask : Cell} {w : Memory 32 → Memory 32}
  {E : Fault → Cpu → Prop}

theorem wp_load_ram {Q : Cell → Cpu → Prop} (h : access n a = .ram) :
    wp (load n a read mask) Q E c ↔ Q (read c.mem) c := by
  obtain ⟨haligned, hram, -⟩ := access_eq_ram.mp h
  simp only [load, wp_bind, wp_ite, wp_throw, wp_get, wp_pure]
  rw [if_neg (not_not_intro haligned), if_pos hram]

theorem wp_load_device {Q : Cell → Cpu → Prop} (h : access n a = .device) :
    wp (load n a read mask) Q E c ↔ Q (c.inputs.headD 0 &&& mask) { c with inputs := c.inputs.tail } := by
  unfold access at h
  split_ifs at h with haligned hram _ hdevice
  simp only [load, input, wp_bind, wp_ite, wp_throw, wp_get, wp_set, wp_pure]
  rw [if_neg haligned, if_neg hram, if_pos hdevice]

theorem wp_load_fails {Q : Cell → Cpu → Prop} (h : access n a = .fails f) :
    wp (load n a read mask) Q E c ↔ E f c := by
  unfold access at h
  simp only [load, wp_bind, wp_ite, wp_throw, wp_get, wp_pure]
  split_ifs at h with haligned hram _ hdevice <;> cases h
  · rw [if_pos haligned]
  · rw [if_neg haligned, if_neg hram, if_neg hdevice]

theorem store_access_eq_ram : store_access n a = .ram ↔ access n a = .ram ∧ fixed a = false := by
  unfold store_access
  split <;> simp_all

theorem wp_store_ram {Q : Unit → Cpu → Prop} (h : store_access n a = .ram) :
    wp (store n a w) Q E c ↔ Q () { c with mem := w c.mem } := by
  obtain ⟨haligned, hram, -⟩ := access_eq_ram.mp (store_access_eq_ram.mp h).1
  simp [store, haligned, hram]

theorem wp_store_device {Q : Unit → Cpu → Prop} (h : store_access n a = .device) :
    wp (store n a w) Q E c ↔ Q () c := by
  unfold store_access access at h
  split_ifs at h <;> simp_all [store]

theorem wp_store_fails {Q : Unit → Cpu → Prop} (h : store_access n a = .fails f) :
    wp (store n a w) Q E c ↔ E f c := by
  unfold store_access access at h
  split_ifs at h <;> simp_all [store]

/-- A load leaves what it loads on top. -/
theorem loading_follows {r : Memory 32 → Cell → Cell} (h : c.Shows s)
    (hinputs : c.inputs = [(s.io.load n (s.ds.headD 0)).1]) {acc : Cell → M Cell}
    (hacc : ∀ a, acc a = load n a (fun m => r m a) mask)
    (hread : ∀ a, access n a = .ram → r c.mem a = r s.mem a) :
    Follows (Prim.loading acc) c (s.loading n r mask) := by
  refine one_follows h fun a ds hds => get_follows fun hwild => ?_
  rw [hds] at hinputs
  rw [wp_bind, h.first hds, hacc]
  cases haccess : access n a with
  | ram =>
    rw [wp_load_ram haccess, wp_modify, hread a haccess]
    exact ⟨_, rfl, h.with_top hds _⟩
  | hidden => exact absurd (by rw [haccess]) hwild
  | device =>
    rw [wp_load_device haccess, wp_modify, hinputs]
    exact ⟨_, rfl, (h.with_io [] (s.io.load n a).2).with_top hds _⟩
  | fails f =>
    rw [wp_load_fails haccess]
    exact ⟨s, rfl, h.toBacks⟩

omit [Board] in
/-- Two items are dropped. -/
theorem popd_popd (h : c.Shows s) (hds : s.ds = a :: b :: ds) :
    wp (do popd; popd) (fun _ c' => c'.Shows { s with ds }) (fun _ _ => False) c := by
  have h' := h.loadD hds
  rw [wp_bind, wp_popd, h.r14_toNat, hds, if_neg (by rw [List.length_cons, List.length_cons]; omega), wp_popd,
    h'.r14_toNat, if_neg (by rw [List.length_cons]; omega)]
  exact h'.loadD rfl

theorem storing_follows {r : Memory 32 → Cell → Cell → Memory 32} (h : c.Shows s) {acc : Cell → Cell → M Unit}
    (hacc : ∀ a v, acc a v = store n a fun m => r m a v)
    (hwrites : ∀ a v, access n a = .ram → Writes a fun m => r m a v) :
    Follows (Prim.storing acc) c (s.storing n r) := by
  refine two_follows h fun a v ds hds => get_follows fun hwild => ?_
  rw [wp_bind, h.first hds, h.second hds, hacc]
  cases haccess : store_access n a with
  | ram =>
    obtain ⟨hram, hfixed⟩ := store_access_eq_ram.mp haccess
    have hstored := h.stores (hwrites a v hram) (access_eq_ram.mp hram).2.2 hfixed
    rw [wp_store_ram haccess]
    exact follows_on (popd_popd hstored hds) (by simp)
  | hidden => exact absurd (by rw [haccess]) hwild
  | device =>
    rw [wp_store_device haccess]
    exact follows_on (popd_popd (h.with_io c.inputs (s.io.store n a v)) hds) (by simp)
  | fails f =>
    rw [wp_store_fails haccess]
    exact ⟨s, rfl, h.toBacks⟩

/-- A half word is stored to memory or to a device. -/
theorem wp_half {Q : Unit → Cpu → Prop} (h : c.Shows s) (a v : Cell)
    (hram : store_access 2 a = .ram → ∀ c', c'.Shows { s with mem := Forth.store_half s.mem a v } → Q () c')
    (hdevice : store_access 2 a = .device → ∀ c', c'.Shows { s with io := s.io.store 2 a v } → Q () c')
    (hfails : ∀ f, store_access 2 a = .fails f → E f c) (hhidden : store_access 2 a ≠ .hidden) :
    wp (sh a v) Q E c := by
  rw [sh]
  cases haccess : store_access 2 a with
  | ram =>
    obtain ⟨hram', hfixed⟩ := store_access_eq_ram.mp haccess
    obtain ⟨haligned, -, hstacked⟩ := access_eq_ram.mp hram'
    rw [wp_store_ram haccess]
    exact hram haccess _ (h.stores (writes16 (aligned_toNat haligned) _) hstacked hfixed)
  | device =>
    rw [wp_store_device haccess]
    exact hdevice haccess _ (h.with_io c.inputs _)
  | fails f =>
    rw [wp_store_fails haccess]
    exact hfails f haccess
  | hidden => exact absurd haccess hhidden

/-- Two half words are stored, the lower one first. -/
theorem store_halves_follows (h : c.Shows s) : Follows (Prim.storing shPair) c s.store_halves := by
  refine two_follows h fun a v ds hds => get_follows fun hwild => ?_
  rw [h.first hds, h.second hds, shPair, wp_bind, wp_bind]
  have hpop {c' : Cpu} {s' : Forth} (hc : c'.Shows s') (hs : s'.ds = s.ds) :
      Follows (do popd; popd) c' (.on { s' with ds }) := follows_on (popd_popd hc (hs.trans hds))
  refine wp_half h (a + 2) v (fun haccess c' hc => ?_) (fun haccess c' hc => ?_) (fun f haccess => ?_) fun haccess => ?_
  all_goals simp only [haccess] at hwild ⊢
  · refine wp_half hc a (v >>> 16) (fun haccess c' hc => ?_) (fun haccess c' hc => ?_) (fun f haccess => ?_)
      fun haccess => ?_
    all_goals simp only [haccess] at hwild ⊢
    · exact hpop hc rfl (by simp)
    · exact hpop hc rfl (by simp)
    · exact ⟨_, rfl, hc.toBacks⟩
    · exact hwild rfl
  · refine wp_half hc a (v >>> 16) (fun haccess c' hc => ?_) (fun haccess c' hc => ?_) (fun f haccess => ?_)
      fun haccess => ?_
    all_goals simp only [haccess] at hwild ⊢
    · exact hpop hc rfl (by simp)
    · exact hpop hc rfl (by simp)
    · exact ⟨_, rfl, hc.toBacks⟩
    · exact hwild rfl
  · exact ⟨_, rfl, h.toBacks⟩
  · exact hwild rfl

/-- The half word behind a token of the dictionary. -/
theorem operand_follows {g : Cell → M Unit} {use : Cell → Forth → Turn} (h : c.Backs s) (hip : s.ip.addr = a)
    (hk : ∀ b x, s.ip = .ram b → Follows (g x) c (use x { s with ip := .ram (b + 2) })) :
    Follows (lhz a >>= g) c (s.operand use) := by
  unfold Forth.operand
  cases hs : s.ip with
  | rom l k => exact follows_wild _ _
  | ram b =>
    rw [hs] at hip
    obtain rfl : b = a := hip
    intro hwild
    rw [wp_bind, lhz]
    cases haccess : access 2 b with
    | ram =>
      rw [wp_load_ram haccess, h.alike.half haccess]
      simp only [Scp.fetch, haccess] at hwild ⊢
      exact hk b _ hs hwild
    | hidden | device => exact absurd (by simp only [Scp.fetch, haccess]) hwild
    | fails f =>
      rw [wp_load_fails haccess]
      simp only [Scp.fetch, haccess]
      exact ⟨s, rfl, h⟩

end Accesses

end Cpu

-- ---------------------------------------------------------------------------
-- The primitives
-- ---------------------------------------------------------------------------

namespace Prim

open Cpu

variable [Board] {c : Cpu} {s : Forth}

omit [Board] in
/-- A comparison or a bitwise operation. -/
theorem binary_follows {f : Cell → Cell → Cell} (h : c.Shows s) :
    Follows (do
      checkDstackTwoItems
      modify fun c => { c with r11 := f c.secondItem c.r11, r14 := c.r14 - CELL_BYTES }) c
      (s.two fun a b ds => .on { s with ds := f a b :: ds }) := by
  refine two_follows h fun b a ds hds => follows_modify ?_
  obtain rfl := h.first hds
  obtain rfl := h.second hds
  exact (h.loadD hds).with_top rfl _

omit [Board] in
theorem bitwise_follows {f : Cell → Cell → Cell} (h : c.Shows s) (hcomm : ∀ a b, f a b = f b a) :
    Follows (bitwise f) c (s.two fun a b ds => .on { s with ds := f a b :: ds }) := by
  refine two_follows h fun b a ds hds => follows_modify ?_
  obtain rfl := h.first hds
  obtain rfl := h.second hds
  rw [hcomm]
  exact (h.loadD hds).with_top rfl _

omit [Board] in
/-- The top goes to a device that is not modelled. -/
theorem popd_as {a : Cell} {ds : List Cell} (h : c.Shows s) (hds : s.ds = a :: ds) (io : Io) :
    Follows popd c (.on { s with ds, io }) := by
  intro _
  rw [wp_popd, h.r14_toNat, hds, if_neg (by rw [List.length_cons]; omega)]
  exact ⟨_, rfl, (h.loadD hds).with_io c.inputs io⟩

theorem dolist_follows (h : c.Shows s) (r1 : Cell) {ip : Ip} (hip : ip.addr = r1 + 2) :
    Follows (Prim.dolist.exec r1) c (s.dolist true ip) := by
  unfold Forth.dolist
  by_cases hfull : 31 ≤ s.rs.length
  · rw [if_pos (full_iff.mpr hfull)]
    exact follows_wild _ _
  · rw [if_neg (mt full_iff.mp hfull)]
    refine follows_modify ?_
    rw [← hip, h.r10]
    exact (h.storeR (by omega) s.ip).goes ip

theorem swap_follows (h : c.Shows s) (r1 : Cell) : Follows (Prim.swap.exec r1) c (Prim.swap.turn true r1 s) := by
  refine two_follows h fun a b ds hds => follows_modify ?_
  obtain rfl := h.first hds
  obtain rfl := h.second hds
  exact (h.with_second hds _).with_top rfl _

theorem dup_follows (h : c.Shows s) (r1 : Cell) : Follows (Prim.dup.exec r1) c (Prim.dup.turn true r1 s) := by
  refine one_follows h fun a ds hds => get_follows ?_
  obtain rfl := h.first hds
  exact pushd_follows h _

theorem over_follows (h : c.Shows s) (r1 : Cell) :
    Follows (Prim.«over».exec r1) c (Prim.«over».turn true r1 s) := by
  refine two_follows h fun b a ds hds => get_follows ?_
  obtain rfl := h.second hds
  exact pushd_follows h _

theorem qdup_follows (h : c.Shows s) (r1 : Cell) : Follows (Prim.qdup.exec r1) c (Prim.qdup.turn true r1 s) := by
  refine one_follows h fun a ds hds => get_follows ?_
  obtain rfl := h.first hds
  by_cases ha : c.r11 = 0
  · rw [if_neg (not_not_intro ha), if_pos ha]
    exact fun _ => ⟨s, rfl, h⟩
  · rw [if_pos ha, if_neg ha]
    exact pushd_follows h _

/-- The return stack has the item before the data stack is found empty. -/
theorem tor_follows (h : c.Shows s) (r1 : Cell) : Follows (Prim.tor.exec r1) c (Prim.tor.turn true r1 s) := by
  refine room_follows h fun hroom => modify_follows fun _ => ?_
  have hstored : (c.storeR c.r11).Shows { s with rs := .ram c.r11 :: s.rs } := h.storeR hroom (.ram c.r11)
  rw [wp_popd, hstored.r14_toNat]
  unfold Forth.one
  cases hds : s.ds with
  | nil => exact ⟨s, rfl, ⟨hstored.alike, h.lists⟩⟩
  | cons a ds =>
    obtain rfl := h.first hds
    rw [if_neg (by rw [List.length_cons]; omega)]
    exact ⟨_, rfl, hstored.loadD hds⟩

theorem rat_follows (h : c.Shows s) (r1 : Cell) : Follows (Prim.rat.exec r1) c (Prim.rat.turn true r1 s) := by
  refine oner_follows h fun r rs hrs => get_follows ?_
  rw [h.topr hrs]
  exact pushd_follows h _

theorem tworat_follows (h : c.Shows s) (r1 : Cell) : Follows (Prim.tworat.exec r1) c (Prim.tworat.turn true r1 s) := by
  intro hwild
  simp only [exec, turn, Forth.oner] at hwild ⊢
  rw [wp_bind, wp_checkRstackTwoItems, h.r15_toNat]
  cases hrs : s.rs with
  | nil => exact ⟨s, rfl, h.toBacks⟩
  | cons r rs =>
    rw [hrs] at hwild
    cases rs with
    | nil => exact ⟨s, rfl, h.toBacks⟩
    | cons r' rs =>
      rw [if_neg (by rw [List.length_cons, List.length_cons]; omega), wp_bind, wp_get]
      have hsecond : load32 c.mem (rstack_lo + c.r15 - CELL_BYTES) = r'.addr := by
        have hr' := (h.dropR hrs).topr rfl
        rw [← hr', Cpu.topr, Cpu.dropR]
        congr 1
        rw [BitVec.sub_eq_add_neg, BitVec.add_assoc, ← BitVec.sub_eq_add_neg]
      rw [hsecond, h.topr hrs]
      exact (pushd_follows h r.addr).bind (fun _ _ _ hc => pushd_follows hc r'.addr) hwild

theorem rfrom_follows (h : c.Shows s) (r1 : Cell) : Follows (Prim.rfrom.exec r1) c (Prim.rfrom.turn true r1 s) := by
  refine oner_follows h fun r rs hrs => get_follows ?_
  rw [h.topr hrs]
  exact modify_follows (pushd_follows (h.dropR hrs) _)

theorem zless_follows (h : c.Shows s) (r1 : Cell) : Follows (Prim.zless.exec r1) c (Prim.zless.turn true r1 s) := by
  refine one_follows h fun a ds hds => follows_modify ?_
  obtain rfl := h.first hds
  exact h.with_top hds _

theorem umplus_follows (h : c.Shows s) (r1 : Cell) : Follows (Prim.umplus.exec r1) c (Prim.umplus.turn true r1 s) := by
  refine two_follows h fun b a ds hds => follows_modify ?_
  obtain rfl := h.first hds
  obtain rfl := h.second hds
  rw [BitVec.add_comm c.secondItem]
  exact (h.with_second hds _).with_top rfl _

/-- The items are the bytes of the stack shifted by two. -/
theorem depth_follows (h : c.Shows s) (r1 : Cell) : Follows (Prim.depth.exec r1) c (Prim.depth.turn true r1 s) := by
  have hdepth : c.r14 >>> 2 = BitVec.ofNat 32 s.ds.length := by
    have hfits := h.fits.1
    rw [Forth.dstack_items] at hfits
    apply BitVec.eq_of_toNat_eq
    rw [BitVec.toNat_ushiftRight, h.r14_toNat, BitVec.toNat_ofNat, Nat.shiftRight_eq_div_pow]
    omega
  refine get_follows ?_
  rw [hdepth]
  exact pushd_follows h _

theorem exit_follows (h : c.Shows s) (r1 : Cell) : Follows (Prim.exit.exec r1) c (Prim.exit.turn true r1 s) := by
  refine oner_follows h fun r rs hrs => follows_modify ?_
  rw [h.topr hrs]
  exact (h.dropR hrs).goes r

theorem execute_follows (h : c.Shows s) (r1 : Cell) :
    Follows (Prim.execute.exec r1) c (Prim.execute.turn true r1 s) := by
  refine one_follows h fun a ds hds => get_follows fun _ => ?_
  obtain rfl := h.first hds
  rw [wp_bind, wp_popd, h.r14_toNat, hds, if_neg (by rw [List.length_cons]; omega), wp_modify]
  exact ⟨_, rfl, (h.loadD hds).with_jump _⟩

theorem aligned_follows (h : c.Shows s) (r1 : Cell) :
    Follows (Prim.aligned.exec r1) c (Prim.aligned.turn true r1 s) := by
  refine two_follows h fun b a ds hds => get_follows fun _ => ?_
  obtain rfl := h.first hds
  obtain rfl := h.second hds
  rw [wp_bind, wp_popd, h.r14_toNat, hds, if_neg (by rw [List.length_cons]; omega), wp_modify]
  exact ⟨_, rfl, (h.loadD hds).with_top rfl _⟩

theorem ask_key_follows (h : c.Shows s) (hinputs : c.inputs = s.io.inputs) (r1 : Cell) :
    Follows (Prim.ask_key.exec r1) c (Prim.ask_key.turn true r1 s) := by
  intro hwild
  simp only [exec, turn, input, wp_bind, wp_get, wp_set, wp_pure, wp_ite, hinputs] at hwild ⊢
  by_cases hkey : s.io.inputs.headD 0 &&& 1 = 0
  · rw [if_pos hkey] at hwild
    simp only [if_pos hkey]
    exact pushd_follows (h.with_io _ _) 0 hwild
  · rw [if_neg hkey] at hwild
    simp only [if_neg hkey]
    rw [← wp_bind]
    exact (pushd_follows (h.with_io _ _) _).bind (fun _ _ _ hc => pushd_follows hc (-1)) hwild

-- ---------------------------------------------------------------------------
-- Primitives with an operand
-- ---------------------------------------------------------------------------

omit [Board] in
/-- The operand of a token is behind it. -/
theorem behind {b : Cell} (h : c.Shows s) (hip : s.ip = .ram b) (n : Cell) :
    { c with r10 := c.r10 + n }.Shows { s with ip := .ram (b + n) } := by
  have hgoes := h.goes (.ram (b + n))
  rwa [show (Ip.ram (b + n)).addr = c.r10 + n by rw [h.r10, hip]; rfl] at hgoes

theorem dolit_follows (h : c.Shows s) (r1 : Cell) : Follows (Prim.dolit.exec r1) c (Prim.dolit.turn true r1 s) := by
  unfold turn
  refine get_follows (operand_follows h.toBacks h.r10.symm fun b x hip => ?_)
  have haddr : c.r10 + 2 = b + 2 := by
    rw [h.r10, hip]
    rfl
  refine operand_follows ⟨h.alike, h.lists⟩ haddr.symm fun b' y hip' => modify_follows ?_
  obtain rfl : b + 2 = b' := Ip.ram.inj hip'
  rw [show b + 2 + 2 = b + CELL_BYTES from BitVec.add_assoc b 2 2]
  exact pushd_follows (behind h hip CELL_BYTES) _

theorem xtalit_follows (h : c.Shows s) (r1 : Cell) : Follows (Prim.xtalit.exec r1) c (Prim.xtalit.turn true r1 s) :=
  get_follows (operand_follows h.toBacks h.r10.symm fun _ _ hip =>
    modify_follows (pushd_follows (behind h hip _) _))

theorem branch_follows (h : c.Shows s) (r1 : Cell) : Follows (Prim.branch.exec r1) c (Prim.branch.turn true r1 s) := by
  unfold turn
  exact get_follows (operand_follows h.toBacks h.r10.symm fun _ _ _ => follows_modify (h.goes (.ram _)))

theorem qbranch_follows (h : c.Shows s) (r1 : Cell) :
    Follows (Prim.qbranch.exec r1) c (Prim.qbranch.turn true r1 s) := by
  refine one_follows h fun a ds hds => get_follows (operand_follows h.toBacks h.r10.symm fun b x hip => ?_)
  obtain rfl := h.first hds
  refine modify_follows fun _ => ?_
  rw [wp_popd]
  dsimp only
  rw [h.r14_toNat, hds, if_neg (by rw [List.length_cons]; omega)]
  by_cases htop : c.r11 = 0
  · rw [if_pos htop, if_pos htop]
    exact ⟨_, rfl, (h.goes (.ram _)).loadD hds⟩
  · rw [if_neg htop, if_neg htop]
    exact ⟨_, rfl, (behind h hip _).loadD hds⟩

theorem next_follows (h : c.Shows s) (r1 : Cell) : Follows (Prim.next.exec r1) c (Prim.next.turn true r1 s) := by
  refine oner_follows h fun r rs hrs => get_follows ?_
  rw [← h.topr hrs]
  by_cases hcount : c.topr = 0
  · rw [if_pos hcount, if_pos hcount]
    cases hip : s.ip with
    | rom l k => exact follows_wild _ _
    | ram b => exact follows_modify ((behind h hip _).dropR hrs)
  · rw [if_neg hcount, if_neg hcount]
    have hstored := h.with_topr hrs (.ram (c.topr - 1))
    exact modify_follows (operand_follows ⟨hstored.alike, h.lists⟩ h.r10.symm fun _ _ _ =>
      follows_modify (hstored.goes (.ram _)))

/-- Every primitive follows its turn, if the devices answer what the token machine is told. -/
theorem exec_follows (h : c.Shows s) (r1 : Cell) (p : Prim) :
    ∃ inputs, Follows (p.exec r1) { c with inputs } (p.turn true r1 s) := by
  have hload {n : Cell} {r : Memory 32 → Cell → Cell} {mask : Cell} {acc : Cell → M Cell}
      (hacc : ∀ a, acc a = load n a (fun m => r m a) mask)
      (hread : ∀ a, access n a = .ram → r c.mem a = r s.mem a) :
      ∃ inputs, Follows (Prim.loading acc) { c with inputs } (s.loading n r mask) :=
    ⟨_, loading_follows (h.with_io [(s.io.load n (s.ds.headD 0)).1] s.io) rfl hacc hread⟩
  have hh := h.with_io [] s.io
  cases p with
  | dolist => exact ⟨_, dolist_follows hh r1 rfl⟩
  | drop => exact ⟨_, popd_follows hh⟩
  | dup => exact ⟨_, dup_follows hh r1⟩
  | swap => exact ⟨_, swap_follows hh r1⟩
  | «over» => exact ⟨_, over_follows hh r1⟩
  | qdup => exact ⟨_, qdup_follows hh r1⟩
  | tor => exact ⟨_, tor_follows hh r1⟩
  | rat => exact ⟨_, rat_follows hh r1⟩
  | tworat => exact ⟨_, tworat_follows hh r1⟩
  | rfrom => exact ⟨_, rfrom_follows hh r1⟩
  | zless => exact ⟨_, zless_follows hh r1⟩
  | equal => exact ⟨_, binary_follows hh⟩
  | ult => exact ⟨_, binary_follows hh⟩
  | slt => exact ⟨_, binary_follows hh⟩
  | dolit => exact ⟨_, dolit_follows hh r1⟩
  | xtalit => exact ⟨_, xtalit_follows hh r1⟩
  | branch => exact ⟨_, branch_follows hh r1⟩
  | qbranch => exact ⟨_, qbranch_follows hh r1⟩
  | next => exact ⟨_, next_follows hh r1⟩
  | umplus => exact ⟨_, umplus_follows hh r1⟩
  | and => exact ⟨_, bitwise_follows hh BitVec.and_comm⟩
  | or => exact ⟨_, bitwise_follows hh BitVec.or_comm⟩
  | xor => exact ⟨_, bitwise_follows hh BitVec.xor_comm⟩
  | store =>
    exact ⟨_, storing_follows hh (fun _ _ => rfl) fun a v hram =>
      writes32 (aligned_toNat (access_eq_ram.mp hram).1) v⟩
  | «at» => exact hload (fun _ => rfl) fun a hram => h.alike.cell hram
  | cstore =>
    exact ⟨_, storing_follows (r := fun m a v => store8 m a (v.setWidth 8)) hh (fun _ _ => rfl)
      fun a v _ => writes8 a _⟩
  | cat =>
    exact hload (r := fun m a => (m a).setWidth 32) (fun _ => rfl) fun a hram =>
      congrArg (BitVec.setWidth 32) (h.alike a (access_eq_ram.mp hram).2.2)
  | xtastore =>
    exact ⟨_, storing_follows hh (fun _ _ => rfl) fun a v hram =>
      writes16 (aligned_toNat (access_eq_ram.mp hram).1) _⟩
  | xtaat =>
    exact hload (r := fun m a => (load16 m a).setWidth 32) (fun _ => rfl) fun a hram =>
      congrArg (BitVec.setWidth 32) (h.alike.half hram)
  | xta_aligned_store => exact ⟨_, store_halves_follows hh⟩
  | rawdot => exact ⟨_, one_follows hh fun _ _ hds => popd_as hh hds _⟩
  | emit_uart => exact ⟨_, one_follows hh fun _ _ hds => popd_as hh hds _⟩
  | depth => exact ⟨_, depth_follows hh r1⟩
  | exit => exact ⟨_, exit_follows hh r1⟩
  | execute => exact ⟨_, execute_follows hh r1⟩
  | reset => exact ⟨_, follows_fault hh.toBacks⟩
  | aligned => exact ⟨_, aligned_follows hh r1⟩
  | ask_key => exact ⟨_, ask_key_follows (h.with_io s.io.inputs s.io) rfl r1⟩

end Prim

end Allwinner.Scp
