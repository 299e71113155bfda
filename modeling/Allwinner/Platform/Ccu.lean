import Allwinner.Library.RegisterFile

/-!
# The clock-control unit

Bus clocks, module clocks, PLLs and reset lines are fields of registers they share. Each of them is
switched by read-modify-write, one field after the other. Switching one leaves the others alone,
and a module clock that passes its gate is one that has its source and dividers.
-/

namespace Allwinner.Platform

open Library.RegisterFile

-- ---------------------------------------------------------------------------
-- Switches
-- ---------------------------------------------------------------------------

/-- What `_enable` and `_disable` of a clock, or `_deassert` and `_assert` of a reset write. -/
structure Switch where
  enable : List (Write 32)
  disable : List (Write 32)
  deriving DecidableEq

/-- One bit of a register. -/
def bitSwitch (address bit : Nat) : Switch := ⟨[(⟨address, bit, 1⟩, 1)], [(⟨address, bit, 1⟩, 0)]⟩

namespace Ccu

def base : Nat := 0x1c20000

/-- `Gating_bit`. -/
def gatingBit (offset bit : Nat) : Switch := bitSwitch (base + offset) bit

/-- `Reset_bit`. -/
def resetBit (offset bit : Nat) : Switch := bitSwitch (base + offset) bit

/-- `Pll`, a register written as a whole. -/
def pll (value : BitVec 32) (offset : Nat) : Switch :=
  ⟨[(⟨base + offset, 0, 32⟩, value)], [(⟨base + offset, 0, 32⟩, 0)]⟩

def busMipiDsi : Switch := gatingBit 0x60 1
def busDma : Switch := gatingBit 0x60 6
def busMmc0 : Switch := gatingBit 0x60 8
def busMmc1 : Switch := gatingBit 0x60 9
def busMmc2 : Switch := gatingBit 0x60 10
def busBusEhci1 : Switch := gatingBit 0x60 25
def busBusOhci1 : Switch := gatingBit 0x60 29
def busTcon0 : Switch := gatingBit 0x64 3
def busTcon1 : Switch := gatingBit 0x64 4
def busCsi : Switch := gatingBit 0x64 8
def busHdmi : Switch := gatingBit 0x64 11
def busDe : Switch := gatingBit 0x64 12
def busGpu : Switch := gatingBit 0x64 20
def mboxGate : Switch := gatingBit 0x64 21
def busAc : Switch := gatingBit 0x68 0
def busI2s0 : Switch := gatingBit 0x68 12
def busI2s2 : Switch := gatingBit 0x68 14
def busTwi0 : Switch := gatingBit 0x6c 0
def busUart3 : Switch := gatingBit 0x6c 19
def usbPhy0Gate : Switch := gatingBit 0xcc 8
def usbPhy1Gate : Switch := gatingBit 0xcc 9
def ohci1Gate : Switch := gatingBit 0xcc 17
def dramCsi : Switch := gatingBit 0x100 1
def tcon0Gate : Switch := gatingBit 0x118 31
def tcon1Gate : Switch := gatingBit 0x11c 31
def ac : Switch := gatingBit 0x140 31

namespace CsiMclk
def mclkGating : Field := ⟨base + 0x134, 15, 1⟩
def mclkSrcSel : Field := ⟨base + 0x134, 8, 3⟩
end CsiMclk

open CsiMclk in
def csiMclk : Switch :=
  ⟨[(mclkSrcSel, 0), (mclkGating, 1)],
    [(mclkGating, 0), (mclkSrcSel, 0)]⟩

namespace CsiSclk
def sclkGating : Field := ⟨base + 0x134, 31, 1⟩
def sclkSrcSel : Field := ⟨base + 0x134, 24, 3⟩
def sclkDivM : Field := ⟨base + 0x134, 16, 4⟩
end CsiSclk

open CsiSclk in
def csiSclk : Switch :=
  ⟨[(sclkDivM, 1), (sclkSrcSel, 0), (sclkGating, 1)],
    [(sclkGating, 0), (sclkSrcSel, 0), (sclkDivM, 0)]⟩

namespace DeClk
def sclkGating : Field := ⟨base + 0x104, 31, 1⟩
def srcSel : Field := ⟨base + 0x104, 24, 3⟩
end DeClk

open DeClk in
def deClk : Switch :=
  ⟨[(srcSel, 1), (sclkGating, 1)],
    [(sclkGating, 0), (srcSel, 0)]⟩

namespace GpuClk
def sclkGating : Field := ⟨base + 0x1a0, 31, 1⟩
end GpuClk

open GpuClk in
def gpuClk : Switch :=
  ⟨[(sclkGating, 1)],
    [(sclkGating, 0)]⟩

namespace MipiDsiClk
def dphyGating : Field := ⟨base + 0x168, 15, 1⟩
def dphySrcSel : Field := ⟨base + 0x168, 8, 2⟩
def clkDivM : Field := ⟨base + 0x168, 0, 4⟩
end MipiDsiClk

open MipiDsiClk in
def mipiDsiClk : Switch :=
  ⟨[(clkDivM, 3), (dphySrcSel, 2), (dphyGating, 1)],
    [(dphyGating, 0), (clkDivM, 0), (dphySrcSel, 0)]⟩

namespace MmcClk
variable (offset : Nat)
def sclkGating : Field := ⟨base + offset, 31, 1⟩
def clkSrcSel : Field := ⟨base + offset, 24, 2⟩
def clkDivN : Field := ⟨base + offset, 16, 2⟩
def clkDivM : Field := ⟨base + offset, 0, 4⟩
end MmcClk

open MmcClk in
/-- `Mmc0_clk` .. `Mmc2_clk`, apart from the divider `n`. -/
def mmcClk (offset : Nat) (n : BitVec 32) : Switch :=
  ⟨[(clkDivN offset, n), (clkDivM offset, 11), (clkSrcSel offset, 1), (sclkGating offset, 1)],
    [(sclkGating offset, 0), (clkSrcSel offset, 0), (clkDivM offset, 0), (clkDivN offset, 0)]⟩

def mmc0Clk : Switch := mmcClk 0x088 0
def mmc1Clk : Switch := mmcClk 0x08c 1
def mmc2Clk : Switch := mmcClk 0x090 0

def pllAudio441 : Switch := pll 0x91020702 0x08
def pllAudioPattern441 : Switch := pll 0xc000ef35 0x284
def pllAudio48 : Switch := pll 0x91020e04 0x08
def pllAudioPattern48 : Switch := pll 0xc000b852 0x284
def pllAudioBias : Switch := pll 0x10040000 0x224
def pllGpu : Switch := pll 0x83006b05 0x38
def pllVideo0 : Switch := pll 0x91003003 0x10
def pllMipi : Switch := pll 0x90c0042f 0x40
def pllDe : Switch := pll 0x83006207 0x48

def usbPhy0Rst : Switch := resetBit 0xcc 0
def usbPhy1Rst : Switch := resetBit 0xcc 1
def mipiDsiRst : Switch := resetBit 0x2c0 1
def dmaRst : Switch := resetBit 0x2c0 6
def mmc0Rst : Switch := resetBit 0x2c0 8
def mmc1Rst : Switch := resetBit 0x2c0 9
def mmc2Rst : Switch := resetBit 0x2c0 10
def ehci1Rst : Switch := resetBit 0x2c0 25
def ohci1Rst : Switch := resetBit 0x2c0 29
def tcon0Rst : Switch := resetBit 0x2c4 3
def tcon1Rst : Switch := resetBit 0x2c4 4
def csiRst : Switch := resetBit 0x2c4 8
def deRst : Switch := resetBit 0x2c4 12
def gpuRst : Switch := resetBit 0x2c4 20
def mboxRst : Switch := resetBit 0x2c4 21
def lvdsRst : Switch := resetBit 0x2c8 0
def acRst : Switch := resetBit 0x2d0 0
def pcm2Rst : Switch := resetBit 0x2d0 14
def i2c0SoftRst : Switch := resetBit 0x2d8 0
def uart3Rst : Switch := resetBit 0x2d8 19

def busClocks : List Switch :=
  [busMipiDsi, busDma, busMmc0, busMmc1, busMmc2, busBusEhci1, busBusOhci1, busTcon0, busTcon1, busCsi,
    busHdmi, busDe, busGpu, mboxGate, busAc, busI2s0, busI2s2, busTwi0, busUart3, usbPhy0Gate,
    usbPhy1Gate, ohci1Gate, dramCsi, tcon0Gate, tcon1Gate, ac]

/-- The clocks with a source or a divider of their own. -/
def moduleClocks : List Switch :=
  [csiMclk, csiSclk, deClk, mipiDsiClk, mmc0Clk, mmc1Clk, mmc2Clk]

def plls : List Switch :=
  [pllAudio441, pllAudioPattern441, pllAudio48, pllAudioPattern48, pllAudioBias, pllGpu, pllVideo0,
    pllMipi, pllDe]

def resets : List Switch :=
  [usbPhy0Rst, usbPhy1Rst, mipiDsiRst, dmaRst, mmc0Rst, mmc1Rst, mmc2Rst, ehci1Rst, ohci1Rst, tcon0Rst,
    tcon1Rst, csiRst, deRst, gpuRst, mboxRst, lvdsRst, acRst, pcm2Rst, i2c0SoftRst, uart3Rst]

end Ccu

namespace RPrcm

/-- `Apb0_clk_gate`. -/
def apb0ClkGate (bit : Nat) : Switch := bitSwitch (0x1f01400 + 0x28) bit

def rTwiClk : Switch := apb0ClkGate 6

end RPrcm

def switches : List Switch :=
  Ccu.busClocks ++ Ccu.moduleClocks ++ Ccu.gpuClk :: Ccu.plls ++ Ccu.resets ++ [RPrcm.rTwiClk]

def Switch.fields (s : Switch) : List Field := s.enable.map Prod.fst

def fields : List Field := switches.flatMap Switch.fields

-- ---------------------------------------------------------------------------
-- Runs
-- ---------------------------------------------------------------------------

/-- A switch is turned on or off. -/
abbrev Op := Switch × Bool

def Op.writes (o : Op) : List (Write 32) := if o.2 then o.1.enable else o.1.disable

/-- The writes of a run, one after the other. -/
def trace (ops : List Op) : List (Write 32) := ops.flatMap Op.writes

/-- What the last operation on a switch with this field has written there. -/
def setting (f : Field) (ops : List Op) : Option (BitVec 32) :=
  (ops.reverse.find? (f ∈ ·.1.fields)).bind fun o => last f o.writes

-- ---------------------------------------------------------------------------
-- Each switch has its own bits
-- ---------------------------------------------------------------------------

theorem switches_layout : Layout 32 fields := by decide +kernel

/-- A switch writes its fields, and all of them, whichever way it goes. -/
theorem switches_proper : ∀ s ∈ switches, ∀ b, (∀ w ∈ Op.writes (s, b), w.1 ∈ s.fields ∧
    w.2.toNat < 2 ^ w.1.width) ∧ ∀ f ∈ s.fields, (last f (Op.writes (s, b))).isSome := by
  decide +kernel

/-- The two rates of the audio PLL. -/
def shared : List Field := Ccu.pllAudio441.fields ++ Ccu.pllAudioPattern441.fields

variable {ops : List Op} {s : Switch} {f : Field}

theorem fields_of_mem (hs : s ∈ switches) (hf : f ∈ s.fields) : f ∈ fields := List.mem_flatMap.mpr ⟨s, hs, hf⟩

theorem trace_fields (hops : ∀ o ∈ ops, o.1 ∈ switches) {w : Write 32} (hw : w ∈ trace ops) :
    w.1 ∈ fields ∧ w.2.toNat < 2 ^ w.1.width := by
  obtain ⟨⟨s, b⟩, ho, hw⟩ := List.mem_flatMap.mp hw
  obtain ⟨hf, hv⟩ := (switches_proper s (hops _ ho) b).1 w hw
  exact ⟨fields_of_mem (hops _ ho) hf, hv⟩

theorem last_trace (hops : ∀ o ∈ ops, o.1 ∈ switches) (f : Field) : last f (trace ops) = setting f ops := by
  induction ops using List.reverseRecOn with
  | nil => rfl
  | append_singleton ops o ih =>
    have ho := switches_proper o.1 (hops o (List.mem_append_right _ List.mem_cons_self)) o.2
    have hbefore := ih fun o ho => hops o (List.mem_append_left _ ho)
    rw [trace, List.flatMap_append, List.flatMap_singleton, last_append, setting, List.reverse_append,
      List.reverse_singleton, List.singleton_append, List.find?_cons]
    by_cases hf : f ∈ o.1.fields
    · obtain ⟨v, hv⟩ := Option.isSome_iff_exists.mp (ho.2 f hf)
      simp [hf, hv]
    · have hnone : last f o.writes = none := last_eq_none fun w hw heq => hf (heq ▸ (ho.1 w hw).1)
      simpa [hf, hnone, setting, trace] using hbefore

/-- In any run each field holds what its own switch has set last, and no other bit changes. Only
the rates of the audio PLL share their registers. -/
theorem switches_independent (m : Registers 32) (hops : ∀ o ∈ ops, o.1 ∈ switches) :
    (∀ f ∈ fields, (m.writes (trace ops)).read f = (setting f ops).getD (m.read f)) ∧
    (∀ a i, (∀ f ∈ fields, ¬ f.Covers a i) → (m.writes (trace ops) a).getLsbD i = (m a).getLsbD i) ∧
    ∀ s ∈ switches, ∀ t ∈ switches, ∀ f ∈ s.fields, f ∈ t.fields → s = t ∨ f ∈ shared := by
  refine ⟨fun f hf => ?_, fun a i hout => getLsbD_writes fun w hw => ?_, by decide +kernel⟩
  · rw [switches_layout.read_writes (fun w hw => (trace_fields hops hw).1) hf, ← last_trace hops]
    cases hv : last f (trace ops) with
    | none => rfl
    | some v => exact Field.stored_eq (trace_fields hops (mem_of_last hv)).2
  · have hf := (trace_fields hops hw).1
    exact ⟨switches_layout.fits _ hf, hout _ hf⟩

/-- Disabling one rate of the audio PLL takes it from the other one. -/
theorem audio_rate_lost : ∃ f ∈ Ccu.pllAudio48.fields,
    (Registers.writes (fun _ => 0) (trace [(Ccu.mmc0Clk, true), (Ccu.pllAudio48, true),
      (Ccu.pllAudio441, false)])).read f = 0 := by
  refine ⟨⟨Ccu.base + 0x08, 0, 32⟩, by decide, ?_⟩
  refine ((switches_independent (fun _ => 0) ?_).1 _ (by decide +kernel)).trans (by decide)
  decide +kernel

-- ---------------------------------------------------------------------------
-- Module clocks
-- ---------------------------------------------------------------------------

/-- A module clock is gated by what its `_enable` writes last. -/
def Switch.gate (s : Switch) : Option (Gate 32) := s.enable.getLast?.map fun w => ⟨w.1, s.enable.dropLast⟩

/-- It is opened behind its configuration, closed first, and nothing else writes to its fields. -/
structure Guards (s : Switch) (c : Gate 32) : Prop where
  proper : c.Proper
  opens : ∃ w ∈ s.enable, s.enable = c.config ++ [(c.gate, w.2)]
  closes : s.disable = (c.gate, 0) :: s.disable.tail
  behind : ∀ w ∈ s.disable.tail, w.1.Fits 32 ∧ w.1.Apart c.gate
  others : ∀ t ∈ switches, t = s ∨ ∀ b, ∀ w ∈ Op.writes (t, b), w.1.Fits 32 ∧ w.1.Apart c.gate ∧
    ∀ w' ∈ c.config, w.1.Apart w'.1

theorem moduleClocks_guards : ∀ s ∈ Ccu.moduleClocks, ∀ c ∈ s.gate, Guards s c := by
  have hproper : ∀ s ∈ Ccu.moduleClocks, ∀ c ∈ s.gate, c.Proper := by decide +kernel
  have hopens : ∀ s ∈ Ccu.moduleClocks, ∀ c ∈ s.gate, ∃ w ∈ s.enable, s.enable = c.config ++ [(c.gate, w.2)] := by
    decide +kernel
  have hcloses : ∀ s ∈ Ccu.moduleClocks, ∀ c ∈ s.gate, s.disable = (c.gate, 0) :: s.disable.tail ∧
      ∀ w ∈ s.disable.tail, w.1.Fits 32 ∧ w.1.Apart c.gate := by decide +kernel
  have hothers : ∀ s ∈ Ccu.moduleClocks, ∀ c ∈ s.gate, ∀ t ∈ switches, t = s ∨ ∀ b, ∀ w ∈ Op.writes (t, b),
      w.1.Fits 32 ∧ w.1.Apart c.gate ∧ ∀ w' ∈ c.config, w.1.Apart w'.1 := by decide +kernel
  exact fun s hs c hc => ⟨hproper s hs c hc, hopens s hs c hc, (hcloses s hs c hc).1, (hcloses s hs c hc).2,
    hothers s hs c hc⟩

variable {c : Gate 32}

theorem Guards.safe (h : Guards s c) {o : Op} (ho : o.1 ∈ switches) : c.Safe o.writes := by
  obtain ⟨t, b⟩ := o
  obtain rfl | hapart := h.others t ho
  · cases b with
    | true =>
      obtain ⟨w, -, hw⟩ := h.opens
      rw [show Op.writes (t, true) = c.config ++ [(c.gate, w.2)] from hw]
      exact .opens h.proper w.2
    | false =>
      rw [show Op.writes (t, false) = (c.gate, 0) :: t.disable.tail from h.closes]
      exact .closes h.proper h.behind
  · exact .apart h.proper (hapart b)

theorem Guards.safe_trace (h : Guards s c) (hops : ∀ o ∈ ops, o.1 ∈ switches) : c.Safe (trace ops) :=
  .flatMap fun o ho => h.safe (hops o ho)

/-- In any run, at each single write, a module clock that is let through has its source and its dividers,
if it had them at the start. Whatever it had there, it is so from the moment it is disabled. -/
theorem clocks_configured (hs : s ∈ Ccu.moduleClocks) (hc : c ∈ s.gate) (m : Registers 32)
    (hops : ∀ o ∈ ops, o.1 ∈ switches) :
    (c.Settled m → ∀ k, c.Settled (m.writes ((trace ops).take k))) ∧
    ∀ pre post, ops = pre ++ (s, false) :: post →
      ∀ k, (trace pre).length < k → c.Settled (m.writes ((trace ops).take k)) := by
  have hguards := moduleClocks_guards s hs c hc
  refine ⟨fun hm k => hguards.safe_trace hops m hm k, ?_⟩
  rintro pre post rfl k hk
  have hpost : ∀ o ∈ post, o.1 ∈ switches := fun o ho =>
    hops o (List.mem_append_right _ (List.mem_cons_of_mem _ ho))
  obtain ⟨j, rfl⟩ := Nat.exists_eq_add_of_le hk
  have htrace : trace (pre ++ (s, false) :: post) =
      trace pre ++ (c.gate, 0) :: (s.disable.tail ++ trace post) := by
    rw [trace, List.flatMap_append, List.flatMap_cons, show Op.writes (s, false) = (c.gate, 0) :: s.disable.tail
      from hguards.closes]
    rfl
  rw [htrace, List.take_append, List.take_of_length_le (by omega), writes_append,
    show (trace pre).length.succ + j - (trace pre).length = j + 1 by omega, List.take_succ_cons, writes_cons]
  exact Gate.settled_append (Gate.settled_of_closed hguards.proper (Gate.read_closed hguards.proper)
    hguards.behind) (hguards.safe_trace hpost) j

/-- A clock that a boot loader left on, at another rate. -/
theorem mmc0_configured : ∃ c ∈ Ccu.mmc0Clk.gate, ∀ k, 1 < k → c.Settled (Registers.writes (fun _ => -1)
    ((trace [(Ccu.busMmc0, true), (Ccu.mmc0Clk, false), (Ccu.mmc0Clk, true)]).take k)) := by
  obtain ⟨c, hc⟩ : ∃ c, c ∈ Ccu.mmc0Clk.gate := ⟨_, rfl⟩
  exact ⟨c, hc, (clocks_configured (by decide) hc (fun _ => -1) (by decide +kernel)).2
    [(Ccu.busMmc0, true)] [(Ccu.mmc0Clk, true)] rfl⟩

end Allwinner.Platform
