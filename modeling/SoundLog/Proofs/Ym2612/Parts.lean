import Mathlib.Algebra.Group.Nat.Defs
import SoundLog.Ym2612.Channel

/-!
# Parts of a channel

A channel is made of parts, each of which keeps some bits of the last byte that was written to it. A
write changes the parts of one group together and leaves all other parts as they were.
-/

namespace SoundLog
namespace Ym2612

/-- Some bits of a byte, from the bit `low` on. -/
structure Span where
  low : Nat
  width : Nat

def Span.read (span : Span) (value : UInt8) : Nat := value.toNat / 2 ^ span.low % 2 ^ span.width

theorem toNat_bits (value : UInt8) (low : Nat) {width : Nat} (h : width ≤ 8) :
    (bits value low width).toNat = Span.read ⟨low, width⟩ value := by
  have hlt : value.toNat / 2 ^ low % 2 ^ width < 2 ^ 8 :=
    Nat.lt_of_lt_of_le (Nat.mod_lt _ (Nat.two_pow_pos _)) (Nat.pow_le_pow_right (by decide) h)
  exact UInt8.toNat_ofNat_of_lt' hlt

theorem toNat_bit (value : UInt8) (place : Nat) :
    (bit value place).toNat = Span.read ⟨place, 1⟩ value := by
  simp [bit, Span.read, Nat.toNat_testBit]

theorem bool_eq_of_toNat {a b : Bool} (h : a.toNat = b.toNat) : a = b := by
  revert a b
  decide

theorem Span.read_low (value : UInt8) (width : Nat) :
    Span.read ⟨0, width⟩ value = value.toNat % 2 ^ width := by simp [Span.read]

theorem Span.read_whole (value : UInt8) : Span.read ⟨0, 8⟩ value = value.toNat := by
  have hlt := value.toNat_lt
  simp only [Span.read]
  omega

theorem Span.read_zero (span : Span) : span.read 0 = 0 := by simp [Span.read]

/-! ## Operators -/

inductive Setting
  | detune
  | multiply
  | volumeInverse
  | rateScaling
  | attackRate
  | amplitudeModulation
  | decay1Rate
  | decay2Rate
  | secondaryAmplitude
  | releaseRate

namespace Setting

def value (operator : Operator) : Setting → Nat
  | detune => operator.detune.toNat
  | multiply => operator.multiply.toNat
  | volumeInverse => operator.volumeInverse.toNat
  | rateScaling => operator.rateScaling.toNat
  | attackRate => operator.attackRate.toNat
  | amplitudeModulation => operator.amplitudeModulation.toNat
  | decay1Rate => operator.decay1Rate.toNat
  | decay2Rate => operator.decay2Rate.toNat
  | secondaryAmplitude => operator.secondaryAmplitude.toNat
  | releaseRate => operator.releaseRate.toNat

def field : Setting → OperatorField
  | detune => .detuneMultiply
  | multiply => .detuneMultiply
  | volumeInverse => .volumeInverse
  | rateScaling => .rateScalingAttack
  | attackRate => .rateScalingAttack
  | amplitudeModulation => .amplitudeModulationDecay1
  | decay1Rate => .amplitudeModulationDecay1
  | decay2Rate => .decay2
  | secondaryAmplitude => .secondaryAmplitudeRelease
  | releaseRate => .secondaryAmplitudeRelease

def span : Setting → Span
  | detune => ⟨4, 3⟩
  | multiply => ⟨0, 4⟩
  | volumeInverse => ⟨0, 7⟩
  | rateScaling => ⟨6, 2⟩
  | attackRate => ⟨0, 5⟩
  | amplitudeModulation => ⟨7, 1⟩
  | decay1Rate => ⟨0, 5⟩
  | decay2Rate => ⟨0, 5⟩
  | secondaryAmplitude => ⟨4, 4⟩
  | releaseRate => ⟨0, 4⟩

theorem value_set (setting : Setting) (field : OperatorField) (value : UInt8)
    (operator : Operator) : setting.value (operator.set field value) =
      if setting.field = field then setting.span.read value else setting.value operator := by
  by_cases h : setting.field = field
  · subst h
    rw [if_pos rfl]
    cases setting with
    | amplitudeModulation => exact toNat_bit value 7
    | _ => exact toNat_bits value _ (by decide)
  · rw [if_neg h]
    cases field <;> cases setting <;> first | rfl | exact absurd rfl h

end Setting

/-- The numbers that make up a pitch. -/
inductive Pitch
  | lsb
  | msb
  | octave

namespace Pitch

def value (frequency : Frequency) : Pitch → Nat
  | lsb => frequency.lsb.toNat
  | msb => frequency.msb.toNat
  | octave => frequency.octave.toNat

def half : Pitch → FrequencyPart
  | lsb => .low
  | msb => .high
  | octave => .high

def span : Pitch → Span
  | lsb => ⟨0, 8⟩
  | msb => ⟨0, 3⟩
  | octave => ⟨3, 3⟩

theorem value_set (pitch : Pitch) (half : FrequencyPart) (value : UInt8)
    (frequency : Frequency) : pitch.value (frequency.set half value) =
      if pitch.half = half then pitch.span.read value else pitch.value frequency := by
  by_cases h : pitch.half = half
  · subst h
    rw [if_pos rfl]
    cases pitch with
    | lsb => exact (Span.read_whole value).symm
    | _ => exact toNat_bits value _ (by decide)
  · rw [if_neg h]
    cases half <;> cases pitch <;> first | rfl | exact absurd rfl h

end Pitch

/-! ## Channels -/

/-- The parts of a channel, its operators included. -/
inductive Part
  | setting (j : Fin 4) (setting : Setting)
  | operatorPitch (j : Fin 4) (pitch : Pitch)
  | key (j : Fin 4)
  | pitch (pitch : Pitch)
  | feedback
  | algorithm
  | stereoLeft
  | stereoRight
  | lfoAmplitudeSensitivity
  | lfoFrequencySensitivity

/-- The parts of a channel that one write changes. -/
inductive Group
  | settings (j : Fin 4) (field : OperatorField)
  | operatorPitch (j : Fin 4) (half : FrequencyPart)
  | keys
  | pitch (half : FrequencyPart)
  | algorithmFeedback
  | stereoSensitivity
  deriving DecidableEq

def Channel.change (value : UInt8) (channel : Channel) : Group → Channel
  | .settings j field => channel.modifyOperator j (Operator.set field value)
  | .operatorPitch j half => channel.modifyOperator j (Operator.setFrequency half value)
  | .keys => channel.setKeys value
  | .pitch half => channel.setFrequency half value
  | .algorithmFeedback => channel.setAlgorithmFeedback value
  | .stereoSensitivity => channel.setStereoSensitivity value

namespace Part

def value (channel : Channel) : Part → Nat
  | setting j s => s.value (channel.operators.get j)
  | operatorPitch j p => p.value (channel.operators.get j).frequency
  | key j => (channel.operators.get j).enabled.toNat
  | pitch p => p.value channel.frequency
  | feedback => channel.feedback.toNat
  | algorithm => channel.algorithm.toNat
  | stereoLeft => channel.stereoLeft.toNat
  | stereoRight => channel.stereoRight.toNat
  | lfoAmplitudeSensitivity => channel.lfoAmplitudeSensitivity.toNat
  | lfoFrequencySensitivity => channel.lfoFrequencySensitivity.toNat

def group : Part → Group
  | setting j s => .settings j s.field
  | operatorPitch j p => .operatorPitch j p.half
  | key _ => .keys
  | pitch p => .pitch p.half
  | feedback => .algorithmFeedback
  | algorithm => .algorithmFeedback
  | stereoLeft => .stereoSensitivity
  | stereoRight => .stereoSensitivity
  | lfoAmplitudeSensitivity => .stereoSensitivity
  | lfoFrequencySensitivity => .stereoSensitivity

def span : Part → Span
  | setting _ s => s.span
  | operatorPitch _ p => p.span
  | key j => ⟨4 + j, 1⟩
  | pitch p => p.span
  | feedback => ⟨3, 3⟩
  | algorithm => ⟨0, 3⟩
  | stereoLeft => ⟨7, 1⟩
  | stereoRight => ⟨6, 1⟩
  | lfoAmplitudeSensitivity => ⟨4, 2⟩
  | lfoFrequencySensitivity => ⟨0, 3⟩

end Part

theorem get_set {α : Type} {n : Nat} (xs : Vector α n) (i j : Fin n) (x : α) :
    (xs.set i x).get j = if j = i then x else xs.get j := by
  change (xs.set i x)[(j : Nat)] = _
  rw [Vector.getElem_set]
  simp only [Fin.ext_iff, eq_comm]
  rfl

theorem Channel.get_modifyOperator (channel : Channel) (j k : Fin 4)
    (change : Operator → Operator) : (channel.modifyOperator j change).operators.get k =
      if k = j then change (channel.operators.get k) else channel.operators.get k := by
  simp only [Channel.modifyOperator, get_set]
  split
  · next h => rw [h]
  · rfl

theorem Channel.get_setKeys (value : UInt8) (channel : Channel) (k : Fin 4) :
    (channel.setKeys value).operators.get k =
      { channel.operators.get k with enabled := bit value (4 + k) } :=
  Vector.getElem_mapFinIdx k.isLt

namespace Part

variable (part : Part) (value : UInt8) (channel : Channel)

theorem value_settings (j : Fin 4) (field : OperatorField) :
    part.value (channel.modifyOperator j (Operator.set field value)) =
      if part.group = .settings j field then part.span.read value else part.value channel := by
  have hframe : ∀ operator : Operator, (operator.set field value).frequency = operator.frequency ∧
      (operator.set field value).enabled = operator.enabled := by
    intro operator
    cases field <;> exact ⟨rfl, rfl⟩
  cases part with
  | setting k s =>
    simp only [Part.value, Channel.get_modifyOperator, group, span, Group.settings.injEq]
    by_cases hk : k = j
    · simp only [hk, if_true, true_and]
      exact s.value_set field value _
    · simp only [hk, if_false, false_and]
  | operatorPitch k p | key k =>
    simp only [Part.value, Channel.get_modifyOperator, group, reduceCtorEq, if_false]
    split
    · simp only [hframe]
    · rfl
  | _ => rfl

theorem value_operatorPitch (j : Fin 4) (half : FrequencyPart) :
    part.value (channel.modifyOperator j (Operator.setFrequency half value)) =
      if part.group = .operatorPitch j half then part.span.read value else part.value channel := by
  cases part with
  | operatorPitch k p =>
    simp only [Part.value, Channel.get_modifyOperator, group, span, Group.operatorPitch.injEq]
    by_cases hk : k = j
    · simp only [hk, if_true, true_and]
      exact p.value_set half value _
    · simp only [hk, if_false, false_and]
  | setting k s =>
    simp only [Part.value, Channel.get_modifyOperator, group, reduceCtorEq, if_false]
    split
    · cases s <;> rfl
    · rfl
  | key k =>
    simp only [Part.value, Channel.get_modifyOperator, group, reduceCtorEq, if_false]
    split <;> rfl
  | _ => rfl

theorem value_keys : part.value (channel.setKeys value) =
    if part.group = .keys then part.span.read value else part.value channel := by
  cases part with
  | key k =>
    simp only [Part.value, Channel.get_setKeys, group, span, if_true]
    exact toNat_bit value _
  | setting k s =>
    simp only [Part.value, Channel.get_setKeys, group, reduceCtorEq, if_false]
    cases s <;> rfl
  | operatorPitch k p =>
    simp only [Part.value, Channel.get_setKeys, group, reduceCtorEq, if_false]
  | _ => rfl

theorem value_pitch (half : FrequencyPart) : part.value (channel.setFrequency half value) =
    if part.group = .pitch half then part.span.read value else part.value channel := by
  cases part with
  | pitch p =>
    simp only [Part.value, Channel.setFrequency, group, span, Group.pitch.injEq]
    exact p.value_set half value _
  | _ => rfl

theorem value_algorithmFeedback : part.value (channel.setAlgorithmFeedback value) =
    if part.group = .algorithmFeedback then part.span.read value else part.value channel := by
  cases part with
  | feedback | algorithm => exact toNat_bits value _ (by decide)
  | _ => rfl

theorem value_stereoSensitivity : part.value (channel.setStereoSensitivity value) =
    if part.group = .stereoSensitivity then part.span.read value else part.value channel := by
  cases part with
  | stereoLeft | stereoRight => exact toNat_bit value _
  | lfoAmplitudeSensitivity | lfoFrequencySensitivity => exact toNat_bits value _ (by decide)
  | _ => rfl

/-- A part takes its bits from the writes to its group, and no other write changes it. -/
theorem value_change (group : Group) : part.value (channel.change value group) =
    if part.group = group then part.span.read value else part.value channel := by
  cases group with
  | settings j field => exact part.value_settings value channel j field
  | operatorPitch j half => exact part.value_operatorPitch value channel j half
  | keys => exact part.value_keys value channel
  | pitch half => exact part.value_pitch value channel half
  | algorithmFeedback => exact part.value_algorithmFeedback value channel
  | stereoSensitivity => exact part.value_stereoSensitivity value channel

end Part
end Ym2612
end SoundLog
