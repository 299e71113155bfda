import Mathlib.Data.List.Basic
import Mathlib.Logic.Function.Basic
import Allwinner.Library.Runs
import Allwinner.Library.BitFields

/-!
# The analog registers of the audio codec

Volumes and enable bits are fields of 8-bit registers, written one after the other by
read-modify-write. A configuration is applied by writing them all.
-/

namespace Allwinner.Audio

open Library (System)
open Library

-- ---------------------------------------------------------------------------
-- Registers and fields
-- ---------------------------------------------------------------------------

/-- The contents of the registers by their offset. -/
abbrev Registers := Nat → BitVec 8

structure Field where
  offset : Nat
  shift : Nat
  width : Nat
  deriving DecidableEq, Repr

namespace Registers

variable (m : Registers) (f : Field)

def read : BitVec 8 := BitFields.extract (m f.offset) f.shift f.width

def write (v : BitVec 8) : Registers :=
  Function.update m f.offset (BitFields.insert (m f.offset) f.shift f.width v)

end Registers

abbrev FieldWrite := Field × BitVec 8

def Registers.writes (m : Registers) (ws : List FieldWrite) : Registers :=
  ws.foldl (fun m fv => m.write fv.1 fv.2) m

-- ---------------------------------------------------------------------------
-- `Analog`
-- ---------------------------------------------------------------------------

namespace HeadphoneAmplifier
def volume : Field := ⟨0x0, 0, 6⟩
def enable : Field := ⟨0x0, 5, 1⟩
end HeadphoneAmplifier

namespace OutputMixerLeft
def dacMuteLeft : Field := ⟨0x1, 1, 1⟩
end OutputMixerLeft

namespace OutputMixerRight
def dacMuteRight : Field := ⟨0x2, 1, 1⟩
end OutputMixerRight

namespace EarpieceControl0
def inputSrc : Field := ⟨0x3, 0, 2⟩
abbrev DACL : BitVec 8 := 1
end EarpieceControl0

namespace EarpieceControl1
def enablePa : Field := ⟨0x4, 7, 1⟩
def muteOff : Field := ⟨0x4, 6, 1⟩
def volume : Field := ⟨0x4, 0, 5⟩
end EarpieceControl1

namespace LineoutControl0
def rightSrc : Field := ⟨0x5, 4, 1⟩
def leftSrc : Field := ⟨0x5, 5, 1⟩
def enable : Field := ⟨0x5, 6, 2⟩
abbrev MONO_DIFF : BitVec 8 := 1
abbrev LEFT_RIGHT_SRC : BitVec 8 := 1
abbrev LEFT_RIGHT : BitVec 8 := 3
end LineoutControl0

namespace LineoutControl1
def volume : Field := ⟨0x6, 0, 5⟩
end LineoutControl1

namespace Mic1Control
def boost : Field := ⟨0x7, 0, 3⟩
def boostAmpEnable : Field := ⟨0x7, 3, 1⟩
def gain : Field := ⟨0x7, 4, 3⟩
end Mic1Control

namespace DacMixer
def headphoneMute : Field := ⟨0xa, 2, 2⟩
def mixerEnable : Field := ⟨0xa, 4, 2⟩
def dacEnable : Field := ⟨0xa, 6, 2⟩
abbrev LEFT_RIGHT : BitVec 8 := 0x3
end DacMixer

namespace AdcMixerLeft
def mic1 : Field := ⟨0xb, 6, 1⟩
end AdcMixerLeft

namespace AdcMixerRight
def mic1 : Field := ⟨0xc, 6, 1⟩
end AdcMixerRight

namespace Adc
def leftEnable : Field := ⟨0xd, 6, 1⟩
def rightEnable : Field := ⟨0xd, 7, 1⟩
end Adc

namespace HsMbiasControl
def masterMicEnable : Field := ⟨0xe, 7, 1⟩
end HsMbiasControl

/-- `_volume`. -/
def scaled (volume max : Nat) : BitVec 8 := BitVec.ofNat 8 (max * (if volume > 100 then 100 else volume) / 100)

/-- A value if enabled, and zero otherwise. -/
def enabled (on : Bool) (v : BitVec 8 := 1) : BitVec 8 := if on then v else 0

def mic1Enabled (volume : Nat) : List FieldWrite :=
  let on := volume ≠ 0
  [(Mic1Control.boostAmpEnable, enabled on), (Mic1Control.boost, 0x3), (Mic1Control.gain, scaled volume 0x7),
    (AdcMixerLeft.mic1, enabled on), (AdcMixerRight.mic1, enabled on),
    (Adc.leftEnable, enabled on), (Adc.rightEnable, enabled on),
    (HsMbiasControl.masterMicEnable, enabled on)]

def earpieceEnabled (volume : Nat) : List FieldWrite :=
  let on := volume ≠ 0
  [(EarpieceControl0.inputSrc, EarpieceControl0.DACL),
    (EarpieceControl1.enablePa, enabled on), (EarpieceControl1.muteOff, enabled on),
    (EarpieceControl1.volume, scaled volume 0x1f)]

def speakerEnabled (volume : Nat) : List FieldWrite :=
  let on := volume ≠ 0
  [(LineoutControl1.volume, scaled volume 0x1f),
    (LineoutControl0.rightSrc, LineoutControl0.MONO_DIFF),
    (LineoutControl0.leftSrc, LineoutControl0.LEFT_RIGHT_SRC),
    (LineoutControl0.enable, enabled on LineoutControl0.LEFT_RIGHT),
    (OutputMixerLeft.dacMuteLeft, enabled on), (OutputMixerRight.dacMuteRight, enabled on)]

def headphoneEnabled (volume : Nat) : List FieldWrite :=
  let on := volume ≠ 0
  [(HeadphoneAmplifier.volume, scaled volume 0x3f), (HeadphoneAmplifier.enable, enabled on),
    (DacMixer.headphoneMute, enabled on DacMixer.LEFT_RIGHT)]

def dacMixerEnabled (on : Bool) : List FieldWrite :=
  [(DacMixer.dacEnable, enabled on DacMixer.LEFT_RIGHT), (DacMixer.mixerEnable, enabled on DacMixer.LEFT_RIGHT)]

-- ---------------------------------------------------------------------------
-- `apply_config`
-- ---------------------------------------------------------------------------

/-- A sub node of the configuration. -/
structure Node where
  type : String
  volume : Nat := 0
  target : String := ""

inductive CodecState where
  | none | soc | modem
  deriving DecidableEq, Repr

structure Device where
  codecState : CodecState := .none
  analog : Registers

/-- The volume in the last node of a type. -/
def volumeOf (type : String) (config : List Node) : Nat :=
  config.foldl (fun volume node => if node.type = type then node.volume else volume) 0

/-- The target is kept in a `String<6>`. -/
def configSoc (config : List Node) : Bool :=
  !config.any fun node => node.type = "codec" && node.target.toList.take 5 = "modem".toList

/-- The fields that `apply_config` writes. -/
def configWrites (config : List Node) : List FieldWrite :=
  let earpiece := volumeOf "earpiece" config
  let speaker := volumeOf "speaker" config
  let headphone := volumeOf "headphone" config
  mic1Enabled (volumeOf "mic" config) ++ earpieceEnabled earpiece ++ speakerEnabled speaker ++
    headphoneEnabled headphone ++ dacMixerEnabled (earpiece ≠ 0 || speaker ≠ 0 || headphone ≠ 0)

/-- `apply_config`. -/
def Device.applyConfig (d : Device) (config : List Node) : Device where
  codecState :=
    if configSoc config && d.codecState ≠ .soc then .soc
    else if !configSoc config && d.codecState ≠ .modem then .modem
    else d.codecState
  analog := d.analog.writes (configWrites config)

def audioControl : System Device (List Node) Unit := ⟨fun d config => (d.applyConfig config, [])⟩

-- ---------------------------------------------------------------------------
-- What the registers should hold
-- ---------------------------------------------------------------------------

/-- Every field that was written reads back. -/
def Registers.ReadsBack (m : Registers) (ws : List FieldWrite) : Prop := ∀ fv ∈ ws, m.read fv.1 = fv.2

/-- The volumes that are played at, and the types of nodes they are configured by. -/
def outputs : List (Field × String) :=
  [(HeadphoneAmplifier.volume, "headphone"), (EarpieceControl1.volume, "earpiece"),
    (LineoutControl1.volume, "speaker")]

/-- After each configuration its fields read back, and of two configurations the one with the higher
volume is not the softer. -/
structure ReflectsConfig (d : Device) (configs : List (List Node)) : Prop where
  readsBack : ∀ pre config post, configs = pre ++ config :: post →
    (audioControl.run d (pre ++ [config])).analog.ReadsBack (configWrites config)
  monotone : ∀ pre config post pre' config' post', configs = pre ++ config :: post →
    configs = pre' ++ config' :: post' → ∀ fv ∈ outputs,
    volumeOf fv.2 config ≤ volumeOf fv.2 config' →
    ((audioControl.run d (pre ++ [config])).analog.read fv.1).toNat ≤
      ((audioControl.run d (pre' ++ [config'])).analog.read fv.1).toNat

-- ---------------------------------------------------------------------------
-- Reading back
-- ---------------------------------------------------------------------------

section Laws

variable {m : Registers} {f g : Field} {v : BitVec 8} {ws : List FieldWrite}

/-- The field is within its register. -/
def Field.Fits (f : Field) : Prop := f.shift + f.width ≤ 8

instance (f : Field) : Decidable f.Fits := inferInstanceAs (Decidable (_ ≤ _))

def Field.Apart (f g : Field) : Prop := f.offset ≠ g.offset ∨ BitFields.Disjoint f.shift f.width g.shift g.width

instance (f g : Field) : Decidable (f.Apart g) := inferInstanceAs (Decidable (_ ∨ (_ ∨ _)))

theorem read_write (hfits : f.Fits) (hv : v.toNat < 2 ^ f.width) : (m.write f v).read f = v := by
  rw [Registers.read, Registers.write, Function.update_self, BitFields.extract_insert _ _ hfits,
    Nat.mod_eq_of_lt hv, BitVec.ofNat_toNat, BitVec.setWidth_eq]

theorem read_write_of_apart (hf : f.Fits) (hg : g.Fits) (h : g.Apart f) : (m.write g v).read f = m.read f := by
  unfold Registers.read Registers.write
  by_cases hoffset : f.offset = g.offset
  · rw [hoffset, Function.update_self]
    exact BitFields.extract_insert_of_disjoint _ _ hg hf (h.resolve_left fun hne => hne hoffset.symm)
  · rw [Function.update_of_ne hoffset]

theorem read_writes_of_apart (hf : f.Fits) (h : ∀ fv ∈ ws, fv.1.Fits ∧ fv.1.Apart f) :
    (m.writes ws).read f = m.read f := by
  induction ws generalizing m with
  | nil => rfl
  | cons fv ws ih =>
    obtain ⟨hfv, hws⟩ := List.forall_mem_cons.mp h
    exact (ih hws).trans (read_write_of_apart hf hfv.1 hfv.2)

theorem writes_append (ws' : List FieldWrite) : m.writes (ws ++ ws') = (m.writes ws).writes ws' :=
  List.foldl_append

/-- A later write of `g` leaves `f` alone, except for the volume of the headphone. -/
def Kept (f g : Field) : Prop := f = HeadphoneAmplifier.volume ∨ g.Apart f

instance (f g : Field) : Decidable (Kept f g) := inferInstanceAs (Decidable (_ ∨ _))

theorem read_writes_of_mem (hkept : (ws.map Prod.fst).Pairwise Kept)
    (hfits : ∀ f ∈ ws.map Prod.fst, f.Fits) (hmem : (f, v) ∈ ws) (hf : f ≠ HeadphoneAmplifier.volume)
    (hv : v.toNat < 2 ^ f.width) : (m.writes ws).read f = v := by
  induction ws generalizing m with
  | nil => cases hmem
  | cons fv ws ih =>
    rw [List.map_cons, List.pairwise_cons] at hkept
    rw [List.map_cons, List.forall_mem_cons] at hfits
    rcases List.mem_cons.mp hmem with rfl | hmem
    · have hapart : ∀ gw ∈ ws, gw.1.Fits ∧ gw.1.Apart f := by
        intro gw hgw
        have hg := List.mem_map_of_mem (f := Prod.fst) hgw
        exact ⟨hfits.2 _ hg, (hkept.1 _ hg).resolve_left hf⟩
      exact (read_writes_of_apart hfits.1 hapart).trans (read_write hfits.1 hv)
    · exact ih hkept.2 hfits.2 hmem

-- ---------------------------------------------------------------------------
-- The headphone
-- ---------------------------------------------------------------------------

/-- Bit 5 of the volume is the enable bit. -/
theorem read_headphone_iff {e : BitVec 8} (hv : v.toNat < 2 ^ 6) :
    ((m.write HeadphoneAmplifier.volume v).write HeadphoneAmplifier.enable e).read HeadphoneAmplifier.volume = v ↔
      v.getLsbD 5 = e.getLsbD 0 := by
  have hbit : ∀ i < 8, (((m.write HeadphoneAmplifier.volume v).write HeadphoneAmplifier.enable e).read
      HeadphoneAmplifier.volume).getLsbD i =
        if i = 5 then e.getLsbD 0 else (v.getLsbD i && decide (i < 6)) := by
    intro i hi
    simp only [Registers.read, Registers.write, HeadphoneAmplifier.volume, HeadphoneAmplifier.enable,
      Function.update_self]
    rw [BitFields.getLsbD_extract _ (by decide), Nat.zero_add, BitFields.getLsbD_insert _ _ (by decide) hi]
    by_cases h5 : i = 5
    · subst h5
      simp
    · rw [if_neg (by omega), BitFields.getLsbD_insert _ _ (by decide) hi, if_neg h5, Nat.sub_zero]
      by_cases h6 : i < 6 <;> simp [h6]
  constructor
  · intro h
    have hfive := hbit 5 (by omega)
    rwa [h, if_pos rfl] at hfive
  · intro h
    apply BitVec.eq_of_getLsbD_eq
    intro i hi
    rw [hbit i hi]
    split
    · rename_i h5
      rw [h5, h]
    · by_cases h6 : i < 6
      · simp [h6]
      · have hhigh : v.getLsbD i = false := by
          rw [← BitVec.testBit_toNat]
          exact Nat.testBit_lt_two_pow (Nat.lt_of_lt_of_le hv (Nat.pow_le_pow_right (by omega) (by omega)))
        simp [hhigh]

end Laws

section Values

variable {volume volume' max : Nat}

theorem toNat_scaled (hmax : max ≤ 0x3f) :
    (scaled volume max).toNat = max * (if volume > 100 then 100 else volume) / 100 := by
  have hle : max * (if volume > 100 then 100 else volume) ≤ 0x3f * 100 :=
    Nat.mul_le_mul hmax (by split <;> omega)
  rw [scaled, BitVec.toNat_ofNat]
  exact Nat.mod_eq_of_lt (by omega)

theorem toNat_scaled_le (hmax : max ≤ 0x3f) : (scaled volume max).toNat ≤ max := by
  have hle : max * (if volume > 100 then 100 else volume) ≤ max * 100 :=
    Nat.mul_le_mul_left _ (by split <;> omega)
  rw [toNat_scaled hmax]
  omega

theorem toNat_scaled_mono (hmax : max ≤ 0x3f) (h : volume ≤ volume') :
    (scaled volume max).toNat ≤ (scaled volume' max).toNat := by
  rw [toNat_scaled hmax, toNat_scaled hmax]
  exact Nat.div_le_div_right (Nat.mul_le_mul_left _ (by split <;> split <;> omega))

theorem toNat_enabled_le (on : Bool) (v : BitVec 8) : (enabled on v).toNat ≤ v.toNat := by
  cases on <;> simp [enabled]

theorem headphone_bit_iff : (scaled volume 0x3f).getLsbD 5 = (enabled (volume ≠ 0)).getLsbD 0 ↔
    volume = 0 ∨ 51 ≤ volume := by
  have hbit : (scaled volume 0x3f).getLsbD 5 = decide (51 ≤ volume) := by
    obtain ⟨t, ht⟩ : ∃ t, t = 0x3f * (if volume > 100 then 100 else volume) / 100 := ⟨_, rfl⟩
    have hlt : t < 64 := by split at ht <;> omega
    have hfive := (by decide : ∀ t < 64, t / 32 % 2 = 1 ↔ 32 ≤ t) t hlt
    rw [← BitVec.testBit_toNat, toNat_scaled (by decide), ← ht, Nat.testBit_eq_decide_div_mod_eq,
      decide_eq_decide, show 2 ^ 5 = 32 from rfl, hfive]
    split at ht <;> omega
  have henabled : (enabled (volume ≠ 0)).getLsbD 0 = decide (volume ≠ 0) := by
    by_cases h : volume = 0 <;> simp [enabled, h]
  rw [hbit, henabled, decide_eq_decide]
  omega

end Values

-- ---------------------------------------------------------------------------
-- Configurations
-- ---------------------------------------------------------------------------

section Configs

variable {config : List Node} {m : Registers} {d : Device}

/-- What is written before the volume of the headphone, and after its enable bit. -/
def writesBefore (config : List Node) : List FieldWrite :=
  mic1Enabled (volumeOf "mic" config) ++ earpieceEnabled (volumeOf "earpiece" config) ++
    speakerEnabled (volumeOf "speaker" config)

def writesAfter (config : List Node) : List FieldWrite :=
  (DacMixer.headphoneMute, enabled (volumeOf "headphone" config ≠ 0) DacMixer.LEFT_RIGHT) ::
    dacMixerEnabled (volumeOf "earpiece" config ≠ 0 || volumeOf "speaker" config ≠ 0 ||
      volumeOf "headphone" config ≠ 0)

theorem configWrites_eq (config : List Node) : configWrites config = writesBefore config ++
    (HeadphoneAmplifier.volume, scaled (volumeOf "headphone" config) 0x3f) ::
      (HeadphoneAmplifier.enable, enabled (volumeOf "headphone" config ≠ 0)) :: writesAfter config := by
  simp only [configWrites, writesBefore, writesAfter, headphoneEnabled, List.append_assoc, List.cons_append,
    List.nil_append]

/-- The fields in the order they are written. -/
def configFields : List Field := (configWrites []).map Prod.fst

theorem configWrites_fields (config : List Node) : (configWrites config).map Prod.fst = configFields := rfl

theorem configFields_kept : configFields.Pairwise Kept := by decide

theorem configFields_fit : ∀ f ∈ configFields, f.Fits := by decide

theorem configWrites_fit (config : List Node) : ∀ fv ∈ configWrites config, fv.2.toNat < 2 ^ fv.1.width := by
  have henabled : ∀ on (v : BitVec 8) w, v.toNat < 2 ^ w → (enabled on v).toNat < 2 ^ w :=
    fun on v w hv => Nat.lt_of_le_of_lt (toNat_enabled_le on v) hv
  have hscaled : ∀ volume max w, max ≤ 0x3f → max < 2 ^ w → (scaled volume max).toNat < 2 ^ w :=
    fun volume max w hmax hw => Nat.lt_of_le_of_lt (toNat_scaled_le hmax) hw
  unfold configWrites mic1Enabled earpieceEnabled speakerEnabled headphoneEnabled dacMixerEnabled
  simp only [List.cons_append, List.nil_append, List.forall_mem_cons]
  refine ⟨?_, ?_, ?_, ?_, ?_, ?_, ?_, ?_, ?_, ?_, ?_, ?_, ?_, ?_, ?_, ?_, ?_, ?_, ?_, ?_, ?_, ?_, ?_, ?_⟩
  all_goals first
    | exact henabled _ _ _ (by decide)
    | exact hscaled _ _ _ (by decide) (by decide)
    | decide

theorem read_headphone_volume : (m.writes (configWrites config)).read HeadphoneAmplifier.volume =
    (((m.writes (writesBefore config)).write HeadphoneAmplifier.volume
      (scaled (volumeOf "headphone" config) 0x3f)).write HeadphoneAmplifier.enable
        (enabled (volumeOf "headphone" config ≠ 0))).read HeadphoneAmplifier.volume := by
  have hafter : ∀ fv ∈ writesAfter config, fv.1.Fits ∧ fv.1.Apart HeadphoneAmplifier.volume := by
    unfold writesAfter dacMixerEnabled
    simp only [List.forall_mem_cons]
    exact ⟨by decide, by decide, by decide, by simp⟩
  rw [configWrites_eq, writes_append, ← List.singleton_append, ← List.singleton_append (l := writesAfter config),
    writes_append, writes_append, read_writes_of_apart (by decide) hafter]
  rfl

theorem read_headphone_volume_iff : (m.writes (configWrites config)).read HeadphoneAmplifier.volume =
    scaled (volumeOf "headphone" config) 0x3f ↔
      volumeOf "headphone" config = 0 ∨ 51 ≤ volumeOf "headphone" config := by
  have hlt : (scaled (volumeOf "headphone" config) 0x3f).toNat < 2 ^ 6 :=
    Nat.lt_of_le_of_lt (toNat_scaled_le (by decide)) (by decide)
  rw [read_headphone_volume, read_headphone_iff hlt, headphone_bit_iff]

theorem configWrites_headphone {fv : FieldWrite} (hfv : fv ∈ configWrites config)
    (hfield : fv.1 = HeadphoneAmplifier.volume) : fv.2 = scaled (volumeOf "headphone" config) 0x3f := by
  have hbefore : ∀ fv ∈ writesBefore config, fv.1 ≠ HeadphoneAmplifier.volume := by
    unfold writesBefore mic1Enabled earpieceEnabled speakerEnabled
    simp only [List.cons_append, List.nil_append, List.forall_mem_cons]
    decide
  have hafter : ∀ fv ∈ writesAfter config, fv.1 ≠ HeadphoneAmplifier.volume := by
    unfold writesAfter dacMixerEnabled
    simp only [List.forall_mem_cons]
    decide
  rw [configWrites_eq] at hfv
  rcases List.mem_append.mp hfv with hfv | hfv
  · exact absurd hfield (hbefore _ hfv)
  · rcases List.mem_cons.mp hfv with rfl | hfv
    · rfl
    · rcases List.mem_cons.mp hfv with rfl | hfv
      · have hne : HeadphoneAmplifier.enable ≠ HeadphoneAmplifier.volume := by decide
        exact absurd hfield hne
      · exact absurd hfield (hafter _ hfv)

/-- All fields read back, if the volume of the headphone does. -/
theorem readsBack_iff : (m.writes (configWrites config)).ReadsBack (configWrites config) ↔
    volumeOf "headphone" config = 0 ∨ 51 ≤ volumeOf "headphone" config := by
  rw [← read_headphone_volume_iff]
  refine ⟨fun h => h (HeadphoneAmplifier.volume, scaled (volumeOf "headphone" config) 0x3f) ?_,
    fun h fv hfv => ?_⟩
  · rw [configWrites_eq]
    exact List.mem_append_right _ List.mem_cons_self
  · by_cases hfield : fv.1 = HeadphoneAmplifier.volume
    · rw [hfield, configWrites_headphone hfv hfield]
      exact h
    · exact read_writes_of_mem (configWrites_fields config ▸ configFields_kept)
        (configWrites_fields config ▸ configFields_fit) hfv hfield (configWrites_fit config fv hfv)

theorem run_analog (pre : List (List Node)) : (audioControl.run d (pre ++ [config])).analog =
    (audioControl.run d pre).analog.writes (configWrites config) := by
  rw [System.run_append]
  rfl

theorem outputs_written : ∀ o ∈ outputs, ∃ max ≤ 0x3f, ∀ config,
    (o.1, scaled (volumeOf o.2 config) max) ∈ configWrites config := by
  unfold outputs
  simp only [List.forall_mem_cons]
  refine ⟨⟨0x3f, by decide, fun config => ?_⟩, ⟨0x1f, by decide, fun config => ?_⟩,
    ⟨0x1f, by decide, fun config => ?_⟩, by simp⟩
  · simp [configWrites, headphoneEnabled]
  · simp [configWrites, earpieceEnabled]
  · simp [configWrites, speakerEnabled]

/-- The registers reflect all configurations whose headphone is off or at half its volume and
above. -/
theorem audioControl_reflects_iff (d : Device) (configs : List (List Node)) :
    ReflectsConfig d configs ↔ ∀ config ∈ configs,
      volumeOf "headphone" config = 0 ∨ 51 ≤ volumeOf "headphone" config := by
  constructor
  · intro h config hconfig
    obtain ⟨pre, post, hsplit⟩ := List.append_of_mem hconfig
    have hread := h.readsBack pre config post hsplit
    rw [run_analog] at hread
    exact readsBack_iff.mp hread
  · intro h
    have hreads : ∀ pre config post, configs = pre ++ config :: post →
        (audioControl.run d (pre ++ [config])).analog.ReadsBack (configWrites config) := by
      intro pre config post hsplit
      rw [run_analog]
      exact readsBack_iff.mpr (h config (by simp [hsplit]))
    refine ⟨hreads, fun pre config post pre' config' post' hsplit hsplit' o ho hle => ?_⟩
    obtain ⟨max, hmax, hwritten⟩ := outputs_written o ho
    have hvolume := hreads pre config post hsplit _ (hwritten config)
    have hvolume' := hreads pre' config' post' hsplit' _ (hwritten config')
    dsimp only at hvolume hvolume'
    rw [hvolume, hvolume']
    exact toNat_scaled_mono hmax hle

end Configs

/-- At volume 50 the headphone is louder than at 60. -/
theorem headphone_not_monotone :
    ((audioControl.run { analog := fun _ => 0 } [[{ type := "headphone", volume := 50 }]]).analog.read
      HeadphoneAmplifier.volume = 63 ∧
    (audioControl.run { analog := fun _ => 0 } [[{ type := "headphone", volume := 60 }]]).analog.read
      HeadphoneAmplifier.volume = 37) ∧
    ¬ ReflectsConfig { analog := fun _ => 0 } [[{ type := "headphone", volume := 50 }]] := by
  refine ⟨by decide +kernel, fun h => ?_⟩
  have hread := h.readsBack [] [{ type := "headphone", volume := 50 }] [] rfl
    (HeadphoneAmplifier.volume, scaled 50 0x3f) (by decide +kernel)
  revert hread
  decide +kernel

end Allwinner.Audio
