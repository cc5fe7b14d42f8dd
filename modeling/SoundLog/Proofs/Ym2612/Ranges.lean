import SoundLog.Proofs.Voice.Numbers
import SoundLog.Proofs.Ym2612.Access
import SoundLog.Proofs.Ym2612.Programming
import SoundLog.Voice.Dx7

/-!
# Ranges

Every part of a channel and every setting of the chip keeps some bits of a byte, so after every
history it is below a power of two. Voices are made of such numbers, and nothing that is told of a
voice, its volumes, its text and its DX7 algorithm, cuts any of them.
-/

namespace SoundLog

open Ym2612

namespace Ym2612

/-! ## Bits -/

theorem Span.read_lt (span : Span) (value : UInt8) : span.read value < 2 ^ span.width :=
  Nat.mod_lt _ (Nat.two_pow_pos _)

/-- The parts of the channels and the settings of the chip fit into their bits. -/
structure Chip.Bounded (chip : Chip) : Prop where
  part (c : Fin 6) (part : Part) : part.value (chip.channels.get c) < 2 ^ part.span.width
  control (control : Control) : control.value chip < 2 ^ control.span.width

theorem Chip.bounded_start : ({} : Chip).Bounded where
  part c part := by
    rw [Part.value_start]
    exact Nat.two_pow_pos _
  control control := by
    rw [Control.value_start]
    exact Nat.two_pow_pos _

theorem Chip.Bounded.write {chip : Chip} (h : chip.Bounded) (port : Port)
    (register value : UInt8) : (chip.write port register value).Bounded where
  part c part := by
    -- a part either takes its bits from the value or is what it was
    rw [part_write]
    split
    · exact part.span.read_lt value
    · exact h.part c part
  control control := by
    rw [control_write]
    split
    · exact control.span.read_lt value
    · exact h.control control

theorem bounded_run (history : List Action) : (run history).Bounded :=
  run_induction Chip.bounded_start (fun _ port register value h => h.write port register value)
    history

/-! ## Pitches -/

/-- The number of a pitch as a 16-bit word with its high part moved up. -/
def Frequency.word (frequency : Frequency) : UInt16 :=
  frequency.msb.toUInt16 <<< 8 ||| frequency.lsb.toUInt16

theorem Frequency.toNat_word (frequency : Frequency) :
    frequency.word.toNat = frequency.number := by
  have hmsb := frequency.msb.toNat_lt
  have hlsb := frequency.lsb.toNat_lt
  have hhigh : (frequency.msb.toUInt16 <<< 8).toNat = frequency.msb.toNat <<< 8 := by
    simp only [UInt16.toNat_shiftLeft, UInt8.toNat_toUInt16, UInt16.reduceToNat, Nat.reduceMod,
      Nat.shiftLeft_eq]
    omega
  rw [word, UInt16.toNat_or, hhigh, UInt8.toNat_toUInt16, ← Nat.shiftLeft_add_eq_or_of_lt hlsb,
    Nat.shiftLeft_eq, number]

/-- A pitch has a number of 11 bits, made of its two parts, and one of eight octaves. -/
structure Frequency.InRange (frequency : Frequency) : Prop where
  msb : frequency.msb ≤ 7
  octave : frequency.octave ≤ 7
  number : frequency.number ≤ 0x7FF
  word : frequency.word.toNat = frequency.number
  parts : frequency.number = 256 * frequency.msb.toNat + frequency.lsb.toNat

theorem byte_le {b limit : UInt8} (h : b.toNat < limit.toNat + 1) : b ≤ limit :=
  UInt8.le_iff_toNat_le.mpr (Nat.le_of_lt_succ h)

theorem Frequency.inRange_of_value_lt {frequency : Frequency}
    (h : ∀ pitch : Pitch, pitch.value frequency < 2 ^ pitch.span.width) : frequency.InRange where
  msb := byte_le (h .msb)
  octave := byte_le (h .octave)
  number := by
    have hmsb : frequency.msb.toNat < 8 := h .msb
    have hlsb : frequency.lsb.toNat < 256 := h .lsb
    rw [Frequency.number]
    omega
  word := frequency.toNat_word
  parts := by rw [Frequency.number, Nat.mul_comm]

/-! ## Channels -/

structure Operator.InRange (operator : Operator) : Prop where
  detune : operator.detune ≤ 7
  multiply : operator.multiply ≤ 15
  volumeInverse : operator.volumeInverse ≤ 127
  rateScaling : operator.rateScaling ≤ 3
  attackRate : operator.attackRate ≤ 31
  decay1Rate : operator.decay1Rate ≤ 31
  decay2Rate : operator.decay2Rate ≤ 31
  secondaryAmplitude : operator.secondaryAmplitude ≤ 15
  releaseRate : operator.releaseRate ≤ 15
  frequency : operator.frequency.InRange

/-- The numbers of a channel and of its operators fit into the bits that their registers have. -/
structure Channel.InRange (channel : Channel) : Prop where
  operator (j : Fin 4) : (channel.operators.get j).InRange
  frequency : channel.frequency.InRange
  feedback : channel.feedback ≤ 7
  algorithm : channel.algorithm ≤ 7
  lfoAmplitudeSensitivity : channel.lfoAmplitudeSensitivity ≤ 3
  lfoFrequencySensitivity : channel.lfoFrequencySensitivity ≤ 7

namespace Chip.Bounded

variable {chip : Chip} (h : chip.Bounded) (c : Fin 6)
include h

theorem operator_inRange (j : Fin 4) : ((chip.channels.get c).operators.get j).InRange where
  detune := byte_le (h.part c (.setting j .detune))
  multiply := byte_le (h.part c (.setting j .multiply))
  volumeInverse := byte_le (h.part c (.setting j .volumeInverse))
  rateScaling := byte_le (h.part c (.setting j .rateScaling))
  attackRate := byte_le (h.part c (.setting j .attackRate))
  decay1Rate := byte_le (h.part c (.setting j .decay1Rate))
  decay2Rate := byte_le (h.part c (.setting j .decay2Rate))
  secondaryAmplitude := byte_le (h.part c (.setting j .secondaryAmplitude))
  releaseRate := byte_le (h.part c (.setting j .releaseRate))
  frequency := Frequency.inRange_of_value_lt fun pitch => h.part c (.operatorPitch j pitch)

theorem channel_inRange : (chip.channels.get c).InRange where
  operator := h.operator_inRange c
  frequency := Frequency.inRange_of_value_lt fun pitch => h.part c (.pitch pitch)
  feedback := byte_le (h.part c .feedback)
  algorithm := byte_le (h.part c .algorithm)
  lfoAmplitudeSensitivity := byte_le (h.part c .lfoAmplitudeSensitivity)
  lfoFrequencySensitivity := byte_le (h.part c .lfoFrequencySensitivity)

end Chip.Bounded

/-! ## Voices -/

theorem Operator.InRange.voice_fits {operator : Operator} (h : operator.InRange) {j : Fin 4}
    (hindex : operator.index = UInt8.ofNat j) : operator.voice.Fits j where
  index := hindex
  volumeInverse := h.volumeInverse
  attackRate := h.attackRate
  decay1Rate := h.decay1Rate
  decay1Level := h.secondaryAmplitude
  decay2Rate := h.decay2Rate
  releaseRate := h.releaseRate
  multiply := h.multiply
  detune := h.detune

theorem Channel.InRange.voice_fits {channel : Channel} (h : channel.InRange) {c : Fin 6}
    (hindex : channel.index = UInt8.ofNat c)
    (hindices : ∀ j, (channel.operators.get j).index = UInt8.ofNat j) :
    channel.voice.Fits c where
  index := hindex
  algorithm := h.algorithm
  feedback := h.feedback
  operator j := by
    rw [get_voice_operators]
    exact (h.operator j).voice_fits (hindices j)

/-- The numbers of an operator that make up its voice, with the operator's own number first. -/
def Operator.numbers (operator : Operator) : List Nat :=
  [operator.index.toNat, operator.attackRate.toNat, operator.secondaryAmplitude.toNat,
    operator.decay1Rate.toNat, operator.decay2Rate.toNat, operator.releaseRate.toNat,
    operator.detune.toNat, operator.multiply.toNat, operator.volumeInverse.toNat]

/-- The numbers of a channel and its operators that make up its voice. -/
def Channel.numbers (channel : Channel) : List Nat :=
  [channel.index.toNat, channel.algorithm.toNat, channel.feedback.toNat] ++
    (List.finRange 4).flatMap fun j => (channel.operators.get j).numbers

theorem Channel.numbers_voice (channel : Channel) : channel.voice.numbers = channel.numbers := by
  simp only [Voice.numbers, get_voice_operators]
  rfl

/-- What is told of a channel is what it holds. -/
structure Channel.ToldInFull (channel : Channel) : Prop where
  voice : channel.voice.numbers = channel.numbers
  text : shownNumbers channel.voice.text = channel.numbers
  volume (j : Fin 4) : ((channel.voice.operators.get j).volume : Int) =
    127 - (channel.operators.get j).volumeInverse.toNat
  dx7 (name : String) : Dx7.Algorithm.nearest[channel.algorithm.toNat]? =
    some (Dx7.Voice.ofVoice name channel.voice).algorithm

theorem Channel.InRange.toldInFull {channel : Channel} (h : channel.InRange)
    (hindices : ∀ j, (channel.operators.get j).index = UInt8.ofNat j) : channel.ToldInFull where
  voice := channel.numbers_voice
  text := by
    rw [Voice.shownNumbers_text, numbers_voice]
    intro j
    rw [get_voice_operators]
    change (channel.operators.get j).index.toNat = j
    rw [hindices]
    exact toNat_ofNat_fin (by decide) j
  volume j := by
    have hvolume : (channel.operators.get j).volumeInverse.toNat ≤ 127 :=
      UInt8.le_iff_toNat_le.mp (h.operator j).volumeInverse
    rw [get_voice_operators]
    exact Int.ofNat_sub hvolume
  dx7 name := by
    have hlt : channel.algorithm.toNat < 8 :=
      Nat.lt_succ_of_le (UInt8.le_iff_toNat_le.mp h.algorithm)
    -- the lowest three bits of a number below 8 are the number
    exact Vector.getElem?_eq_some_iff.mpr
      ⟨hlt, getElem_congr_idx (Nat.mod_eq_of_lt hlt).symm⟩

/-- A voice that no registers hold: its algorithm and a volume are cut. -/
example :
    let voice : Voice :=
      { algorithm := 9, operators := Vector.replicate 4 { volumeInverse := 200 } }
    Dx7.Algorithm.nearest[voice.algorithm.toNat]? = none ∧
      (Dx7.Voice.ofVoice "voice" voice).algorithm.number = 14 ∧
      (voice.operators.get 0).volume = 0 :=
  ⟨rfl, rfl, rfl⟩

/-- After every history that starts at power-on, through any port bytes and with any resets: no
access to an array has failed, the channels and operators are numbered by their places, all numbers
fit into their bits, and so what is told of a channel is what it holds. -/
theorem run_in_range (history : List Action) :
    let chip := run history
    runChecked history = .ok chip ∧ chip.Numbered ∧
      (∀ c, (chip.channels.get c).InRange) ∧ chip.lfoFrequency ≤ 7 ∧
      ∀ c, (chip.channels.get c).voice.Fits c ∧ (chip.channels.get c).ToldInFull := by
  intro chip
  have hbounded : chip.Bounded := bounded_run history
  have hnumbered : chip.Numbered := numbered_run history
  refine ⟨runChecked_eq history, hnumbered, hbounded.channel_inRange,
    byte_le (hbounded.control .lfoFrequency), ?_⟩
  intro c
  have hchannel := hbounded.channel_inRange c
  exact ⟨hchannel.voice_fits (hnumbered.channel c) (hnumbered.operator c),
    hchannel.toldInFull (hnumbered.operator c)⟩

end Ym2612
end SoundLog
