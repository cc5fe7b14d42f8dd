import SoundLog.Ym2612.Chip

/-!
# Voices

A voice is a copy of what gives a channel its sound: algorithm, feedback and the envelopes, pitch
factors and levels of the four operators. Pitch, stereo, key and modulation settings are left out.
Voices are values and compare as such.
-/

namespace SoundLog

structure OperatorVoice where
  index : UInt8 := 0
  /-- The attenuation; 0 is the loudest. -/
  volumeInverse : UInt8 := 0
  attackRate : UInt8 := 0
  decay1Rate : UInt8 := 0
  decay1Level : UInt8 := 0
  decay2Rate : UInt8 := 0
  releaseRate : UInt8 := 0
  multiply : UInt8 := 0
  detune : UInt8 := 0
  deriving DecidableEq

/-- The loudness from 0 to 127; an attenuation above 127 counts as 127. -/
def OperatorVoice.volume (operator : OperatorVoice) : Nat := 127 - operator.volumeInverse.toNat

structure Voice where
  index : UInt8 := 0
  algorithm : UInt8 := 0
  feedback : UInt8 := 0
  operators : Vector OperatorVoice 4 := Vector.replicate 4 {}
  deriving DecidableEq

/-- An operator of a voice by number. -/
def Voice.operator (voice : Voice) (j : Nat) : Except Ym2612.IndexError OperatorVoice :=
  match voice.operators[j]? with
  | some operator => .ok operator
  | none => .error (.entry 4 j)

namespace Ym2612

def Operator.voice (operator : Operator) : OperatorVoice where
  index := operator.index
  volumeInverse := operator.volumeInverse
  attackRate := operator.attackRate
  decay1Rate := operator.decay1Rate
  decay1Level := operator.secondaryAmplitude
  decay2Rate := operator.decay2Rate
  releaseRate := operator.releaseRate
  multiply := operator.multiply
  detune := operator.detune

def Channel.voice (channel : Channel) : Voice where
  index := channel.index
  algorithm := channel.algorithm
  feedback := channel.feedback
  operators := channel.operators.map Operator.voice

def Chip.voices (chip : Chip) : Vector Voice 6 := chip.channels.map Channel.voice

end Ym2612
end SoundLog
