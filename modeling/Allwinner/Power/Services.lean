import Allwinner.Power.Requests

/-!
# What the driver is told

`power_info` prints six numbers. The two words the driver calls time and again do and answer what the
registers of the power-management IC say.
-/

namespace Allwinner.Power

open Library Memory
open Scp
open Library.Structured (Prog Calls runs runs_base runs_call)
open Library.RegisterFile (Registers Write)

-- ---------------------------------------------------------------------------
-- Words one after the other
-- ---------------------------------------------------------------------------

theorem line_append {W : Type} (ws ws' : List W) (k : Prog W) : line (ws ++ ws') k = line ws (line ws' k) :=
  List.foldr_append

theorem line_means {W S : Type} {M : Structured.Meaning W S} {C : Structured.Counts M} {ws : List W} {k : Prog W}
    {s t r : S} (h : Structured.Means C (line ws) s t) (hk : Structured.Means C k t r) :
    Structured.Means C (line ws k) s r := by
  induction ws generalizing s with
  | nil =>
    cases h
    exact hk
  | cons w ws ih =>
    cases h with
    | word hw hrest => exact .word hw (ih hrest)

-- ---------------------------------------------------------------------------
-- The numbers
-- ---------------------------------------------------------------------------

/-- What the driver wants to know: power source, charger, voltage, the current in and out, capacity. -/
def readings (R : Registers 8) : List Nat :=
  let wide := fun high low => 16 * (R high).toNat + (R low).toNat
  [(R 0).toNat, (R 1).toNat, wide 0x78 0x79, wide 0x7a 0x7b, wide 0x7c 0x7d, (R 0xb9).toNat % 128]

/-- Decimal numbers, with a space before each. -/
def number_list (xs : List Nat) : List Byte := xs.flatMap fun x => 0x20 :: numeral 10 x

def report (R : Registers 8) : List Byte := number_list (readings R)

section Words

variable [Board] [Sram] [Wired] {bus : Bus} {E : Emitter} {defs : List Definition}
  {u v w : Store} {R : Registers 8} {ps : List (Atom × Body)} {ws : List Atom} {x y : Cell}

omit [Sram] [Wired] in
theorem and_does {m : Memory 32} {a b : Cell} : Does .and m [b, a] [a &&& b] m := fun _ _ _ _ => ⟨_, rfl, .refl⟩

/-- The words and the emitter are there, and the registers of the chip are as `R` says. -/
structure Serving (E : Emitter) (bus : Bus) (defs : List Definition) (R : Registers 8) (u : Store) :
    Prop where
  calm : Calm E bus defs u
  idle : Attached u.io R

omit [Sram] in
theorem Serving.talked {io : Io} (h : Serving E bus defs R u) {R' : Registers 8} (hidle : Attached io R') :
    Serving E bus defs R' ⟨u.mem, io⟩ :=
  ⟨⟨h.calm.standing, h.calm.application, E.frame h.calm.emitter .refl⟩, hidle⟩

/-- A line of words reads the chip and leaves `x`. -/
def Pushes (E : Emitter) (bus : Bus) (defs : List Definition) (ps : List (Atom × Body)) (R : Registers 8)
    (ws : List Atom) (x : Cell) : Prop :=
  ∀ u, Serving E bus defs R u → ∃ io, io.sent = u.io.sent ∧ Attached io R ∧
    ∀ st rs, Calls (counts (Standing defs)) (called defs) ps (line ws) ⟨st, rs, u.mem, u.io⟩ ⟨x :: st, rs, u.mem, io⟩

theorem fetch_pushes (ps : List (Atom × Body)) {r : Cell} (hr : r.toNat < 256) :
    Pushes E bus defs ps R [.lit r, .xt bus.fetch] ((R r.toNat).setWidth 32) := by
  intro u hu
  obtain ⟨io, hfetch, hsent, hidle⟩ := pmic_fetch_drives hu.calm.application hu.idle hr
  exact ⟨io, hsent, hidle, fun st rs =>
    .word (runs_base rfl) (.word (runs_base ⟨hfetch st rs, hu.calm.standing⟩) .done)⟩

omit [Sram] in
/-- A pure operation on what was pushed. -/
theorem Pushes.then (h : Pushes E bus defs ps R ws x) {v : Cell} {l : Label}
    (hl : l ∈ Label.all.drop 8) (hop : ∀ m, Does l m [v, x] [y] m) :
    Pushes E bus defs ps R (ws ++ [.lit v, .xt l.offset]) y := by
  intro u hu
  obtain ⟨io, hsent, hidle, hmeans⟩ := h u hu
  refine ⟨io, hsent, hidle, fun st rs => ?_⟩
  rw [line_append]
  exact line_means (hmeans st rs) (.word (runs_base rfl)
    (.word (runs_base ⟨(hop u.mem).computes hl, hu.calm.standing⟩) .done))

omit [Sram] in
/-- A pure operation on two numbers. -/
theorem Pushes.both {ws' : List Atom} {z : Cell} (h : Pushes E bus defs ps R ws x) (h' : Pushes E bus defs ps R ws' y)
    {l : Label} (hl : l ∈ Label.all.drop 8) (hop : ∀ m, Does l m [y, x] [z] m) :
    Pushes E bus defs ps R (ws ++ ws' ++ [.xt l.offset]) z := by
  intro u hu
  obtain ⟨io, hsent, hidle, hmeans⟩ := h u hu
  obtain ⟨io', hsent', hidle', hmeans'⟩ := h' _ (hu.talked hidle)
  refine ⟨io', hsent'.trans hsent, hidle', fun st rs => ?_⟩
  rw [line_append, line_append]
  exact line_means (hmeans st rs) (line_means (hmeans' (x :: st) rs)
    (.word (runs_base ⟨(hop u.mem).computes hl, hu.calm.standing⟩) .done))

theorem wide_pushes (ps : List (Atom × Body)) {high low : Half} (hhigh : high.toNat < 256) (hlow : low.toNat < 256) :
    Pushes E bus defs ps R (wide_register bus.fetch high low)
      ((R high.toNat).setWidth 32 * 0x10 + (R low.toNat).setWidth 32) := by
  have hcell {r : Half} (hr : r.toNat < 256) : (r.setWidth 32 : Cell).toNat = r.toNat := by
    rw [BitVec.toNat_setWidth]
    omega
  have hone {r : Half} (hr : r.toNat < 256) :
      Pushes E bus defs ps R [.lit (r.setWidth 32), .xt bus.fetch] ((R r.toNat).setWidth 32) := by
    have hpushes : Pushes E bus defs ps R [.lit (r.setWidth 32), .xt bus.fetch]
        ((R (r.setWidth 32 : Cell).toNat).setWidth 32) := fetch_pushes ps (by rw [hcell hr]; exact hr)
    rwa [hcell hr] at hpushes
  exact ((hone hhigh).then (by decide) fun m => mul_does _ _).both (hone hlow) (by decide) fun m => plus_does

/-- A line of words prints `cs`. -/
def Tells (E : Emitter) (bus : Bus) (defs : List Definition) (R : Registers 8) (ws : List Atom)
    (cs : List Cell) : Prop :=
  ∀ u, Serving E bus defs R u → ∃ v, Serving E bus defs R v ∧ Prints E formatting u cs v ∧
    load32 v.mem Label.base.storage = load32 u.mem Label.base.storage ∧
    ∀ st rs, ProgramMeans defs (line ws) ⟨st, rs, u.mem, u.io⟩ ⟨st, rs, v.mem, v.io⟩

omit [Sram] in
theorem Tells.append {ws' : List Atom} {cs cs' : List Cell} (h : Tells E bus defs R ws cs)
    (h' : Tells E bus defs R ws' cs') : Tells E bus defs R (ws ++ ws') (cs ++ cs') := by
  intro u hu
  obtain ⟨v, hv, hprints, hbase, hmeans⟩ := h u hu
  obtain ⟨w, hw, hprints', hbase', hmeans'⟩ := h' v hv
  refine ⟨w, hw, hprints.trans hprints', hbase'.trans hbase, fun st rs => ?_⟩
  rw [line_append]
  exact line_means (hmeans st rs) (hmeans' st rs)

omit [Board] [Sram] [Wired] in
theorem signed_numeral_nonneg (hx : x.toNat < 2 ^ 31) : signed_numeral 10 x = numeral 10 x.toNat := by
  have hslt : x.slt 0 = false := by
    rw [show (0 : Cell) = 0#32 from rfl, BitVec.slt_zero_eq_msb, BitVec.msb_eq_false_iff_two_mul_lt]
    omega
  rw [signed_numeral, hslt]
  rfl

omit [Sram] in
theorem Attached.same {io io' : Io} (h : Attached io R) (hsame : controller io' = controller io) : Attached io' R :=
  ⟨hsame ▸ h.pending, hsame ▸ h.address, hsame ▸ h.chip⟩

/-- What is pushed is printed by `.decimal`. -/
theorem Pushes.told {d : Half} {qs : List (Atom × Body)} (hE : Separate E bus defs)
    (hps : procedures defs = qs ++ [(.xt d, decimal_body)]) (h : Pushes E bus defs (procedures defs) R ws x)
    {v : Nat} (hx : x.toNat = v) (hv : v < 2 ^ 31) :
    Tells E bus defs R (ws ++ [.xt d]) (chars (number_list [v])) := by
  have htext : chars (number_list [v]) = 0x20 :: chars (numeral 10 v) := by simp [number_list, chars]
  subst hx
  rw [htext]
  intro u hu
  obtain ⟨io, hsent, hidle, hmeans⟩ := h u hu
  have hserving := hu.talked hidle
  obtain ⟨v, hdecimal, hprints, htransfers, hbase⟩ := decimal_means hserving.calm hE [] x
  rw [signed_numeral_nonneg hv] at hprints
  have hcalm := hserving.calm.printed hE hprints
  have hread : Prints E formatting u [] ⟨u.mem, io⟩ := .quiet .refl hsent
  have hsame : controller v.io = controller io := by rw [controller, controller, htransfers]
  refine ⟨v, ⟨hcalm, hidle.same hsame⟩, hread.trans hprints, hbase, fun st rs => ?_⟩
  rw [line_append]
  refine line_means (hmeans st rs) (.word ?_ .done)
  rw [hps]
  exact runs_call ⟨hserving.calm.standing, hdecimal st [], rfl, hcalm.standing⟩

omit [Board] [Sram] [Wired] in
theorem register_toNat (a : Nat) : ((R a).setWidth 32).toNat = (R a).toNat ∧ (R a).toNat < 256 := by
  rw [BitVec.toNat_setWidth]
  have := (R a).isLt
  omega

theorem power_info_means {d : Half} {qs : List (Atom × Body)} (hE : Separate E bus defs)
    (hps : procedures defs = qs ++ [(.xt d, decimal_body)]) (hu : Serving E bus defs R u) :
    ∃ v, Serving E bus defs R v ∧ Prints E formatting u (chars (report R)) v ∧
      load32 v.mem Label.base.storage = load32 u.mem Label.base.storage ∧
      ∀ st rs, ProgramMeans defs (power_info_body bus.fetch d) ⟨st, rs, u.mem, u.io⟩ ⟨st, rs, v.mem, v.io⟩ := by
  have hone {r : Cell} (hr : r.toNat < 256) : Tells E bus defs R ([.lit r, .xt bus.fetch] ++ [.xt d])
      (chars (number_list [(R r.toNat).toNat])) := by
    obtain ⟨hvalue, hlt⟩ := register_toNat (R := R) r.toNat
    exact (fetch_pushes _ hr).told hE hps hvalue (by omega)
  have hwide (high low : Half) (hhigh : high.toNat < 256) (hlow : low.toNat < 256) :
      Tells E bus defs R (wide_register bus.fetch high low ++ [.xt d])
        (chars (number_list [16 * (R high.toNat).toNat + (R low.toNat).toNat])) := by
    obtain ⟨hvalue, hlt⟩ := register_toNat (R := R) high.toNat
    obtain ⟨hvalue', hlt'⟩ := register_toNat (R := R) low.toNat
    refine (wide_pushes _ hhigh hlow).told hE hps ?_ (by omega)
    rw [BitVec.toNat_add, BitVec.toNat_mul, hvalue, hvalue', show (0x10 : Cell).toNat = 16 from rfl]
    omega
  have hcapacity : Tells E bus defs R ([.lit 0xb9, .xt bus.fetch] ++ [.lit 0x7f, .xt Label.and.offset] ++ [.xt d])
      (chars (number_list [(R 0xb9).toNat % 128])) := by
    refine Pushes.told hE hps ((fetch_pushes _ (by decide)).then (by decide) fun m => and_does) ?_ (by omega)
    rw [BitVec.toNat_and, (register_toNat _).1]
    exact Nat.and_two_pow_sub_one_eq_mod _ 7
  have hall := (((((hone (r := 0) (by decide)).append (hone (r := 1) (by decide))).append
    (hwide 0x78 0x79 (by decide) (by decide))).append (hwide 0x7a 0x7b (by decide) (by decide))).append
    (hwide 0x7c 0x7d (by decide) (by decide))).append hcapacity
  obtain ⟨v, hv, hprints, hbase, hmeans⟩ := hall u hu
  refine ⟨v, hv, ?_, hbase, hmeans⟩
  simp only [chars, ← List.map_append, number_list, ← List.flatMap_append] at hprints
  exact hprints

-- ---------------------------------------------------------------------------
-- Requests
-- ---------------------------------------------------------------------------

/-- The requests the driver makes time and again. -/
inductive Service
  | power_info | clear_pmic_irqs

namespace Service

def name : Service → List Byte
  | power_info => ascii "power_info"
  | clear_pmic_irqs => ascii "clear_pmic_irqs"

/-- What a request sets in the IC. -/
def writes : Service → List (Write 8)
  | power_info => []
  | clear_pmic_irqs => irq_writes 5

/-- The response to a request. -/
def answer : Service → Registers 8 → List Byte
  | power_info, R => report R
  | clear_pmic_irqs, _ => []

end Service

variable {ds : List Dentry} {c : Cell}

/-- A word does what is requested. -/
theorem Serving.does (h : Serving E bus (definitions bus c) R u) (hE : Separate E bus (definitions bus c))
    (hplain : ∀ x ∈ definitions bus c, x.1.token = x.1.xta.setWidth 32) (ds : List Dentry) (q : Service) :
    ∃ d v, lookup (vocabulary (definitions bus c) ds) q.name = some d ∧
      Serving E bus (definitions bus c) (R.writes q.writes) v ∧
      Prints E formatting u (chars (q.answer R)) v ∧
      load32 v.mem Label.base.storage = load32 u.mem Label.base.storage ∧
      ∀ st rs, Computes (start + d.token) ⟨st, rs, u.mem, u.io⟩ ⟨st, rs, v.mem, v.io⟩ := by
  obtain ⟨between, c₃, c₄, hdefs⟩ := definitions_ends bus c
  obtain ⟨newer, hprocedures⟩ : ∃ newer, procedures (definitions bus c) = newer ++
      [(.xt (entry_from c (ascii ".decimal")).xta, decimal_body)] := by
    rw [procedures, hdefs, List.map_cons, List.reverse_cons]
    exact ⟨_, rfl⟩
  obtain ⟨hinfo, hclear⟩ : (entry_from c₃ (ascii "power_info"), power_info_body bus.fetch _) ∈
      definitions bus c ∧ (entry_from c₄ (ascii "clear_pmic_irqs"), clear_pmic_irqs_body bus.store) ∈
      definitions bus c := by
    rw [hdefs]
    exact ⟨.tail _ (List.mem_append_right _ (.head _)), .tail _ (List.mem_append_right _ (.tail _ (.head _)))⟩
  obtain ⟨older, hvocabulary⟩ : ∃ older, vocabulary (definitions bus c) ds =
      entry_from c₄ (ascii "clear_pmic_irqs") :: entry_from c₃ (ascii "power_info") :: older := by
    rw [vocabulary, hdefs, List.map_cons, List.map_append, List.reverse_cons, List.reverse_append]
    exact ⟨_, rfl⟩
  rw [hvocabulary]
  cases q with
  | power_info =>
    obtain ⟨v, hv, hprints, hbase, hmeans⟩ := power_info_means hE hprocedures h
    refine ⟨_, v, (lookup_entry_ne _ c₄ (by decide) (by decide)).trans (lookup_entry _ c₃ (by decide)), hv, hprints,
      hbase, fun st rs => ?_⟩
    have hcalled := called_computes (s := ⟨st, rs, u.mem, u.io⟩) (t := ⟨st, rs, v.mem, v.io⟩) hplain hinfo
      ⟨h.calm.standing, hmeans st [], rfl, hv.calm.standing⟩
    exact hcalled
  | clear_pmic_irqs =>
    obtain ⟨io, hsent, hidle, hmeans⟩ := clear_pmic_irqs_means h.calm.application h.calm.standing h.idle
    refine ⟨_, ⟨u.mem, io⟩, lookup_entry _ c₄ (by decide), h.talked hidle, .quiet .refl hsent, rfl, fun st rs => ?_⟩
    have hcalled := called_computes (s := ⟨st, rs, u.mem, u.io⟩) (t := ⟨st, rs, u.mem, io⟩) hplain
      hclear ⟨h.calm.standing, hmeans st [], rfl, h.calm.standing⟩
    exact hcalled

end Words

end Allwinner.Power
