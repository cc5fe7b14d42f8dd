import SoundLog.Ym2612.Register

/-!
# Channels and operators

The decoded state of one channel and its four operators. Every setter takes the byte written to one
register and keeps the bits that matter. Which channel an operator belongs to is told by its place.
It carries no label for that, since the events of a write take the channel from the write.
-/

namespace SoundLog
namespace Ym2612

/-- Bits `low` to `low + width - 1` of a byte as a number. -/
def bits (value : UInt8) (low width : Nat) : UInt8 :=
  UInt8.ofNat (value.toNat / Nat.pow 2 low % Nat.pow 2 width)

def bit (value : UInt8) (place : Nat) : Bool := value.toNat.testBit place

structure Frequency where
  lsb : UInt8 := 0
  msb : UInt8 := 0
  octave : UInt8 := 0
  deriving DecidableEq

namespace Frequency

def number (frequency : Frequency) : Nat := frequency.msb.toNat * 256 + frequency.lsb.toNat

def set (part : FrequencyPart) (value : UInt8) (frequency : Frequency) : Frequency :=
  match part with
  | .low => { frequency with lsb := value }
  | .high => { frequency with msb := bits value 0 3, octave := bits value 3 3 }

end Frequency

structure Operator where
  index : UInt8
  detune : UInt8 := 0
  multiply : UInt8 := 0
  volumeInverse : UInt8 := 0
  rateScaling : UInt8 := 0
  attackRate : UInt8 := 0
  amplitudeModulation : Bool := false
  decay1Rate : UInt8 := 0
  decay2Rate : UInt8 := 0
  /-- The level at which the second decay takes over from the first. -/
  secondaryAmplitude : UInt8 := 0
  releaseRate : UInt8 := 0
  /-- The operator's own pitch, which counts in special mode only. -/
  frequency : Frequency := {}
  /-- Whether the operator's key is on. -/
  enabled : Bool := false
  deriving DecidableEq

namespace Operator

def set (field : OperatorField) (value : UInt8) (operator : Operator) : Operator :=
  match field with
  | .detuneMultiply => { operator with detune := bits value 4 3, multiply := bits value 0 4 }
  | .volumeInverse => { operator with volumeInverse := bits value 0 7 }
  | .rateScalingAttack =>
    { operator with rateScaling := bits value 6 2, attackRate := bits value 0 5 }
  | .amplitudeModulationDecay1 =>
    { operator with amplitudeModulation := bit value 7, decay1Rate := bits value 0 5 }
  | .decay2 => { operator with decay2Rate := bits value 0 5 }
  | .secondaryAmplitudeRelease =>
    { operator with secondaryAmplitude := bits value 4 4, releaseRate := bits value 0 4 }

def setFrequency (part : FrequencyPart) (value : UInt8) (operator : Operator) : Operator :=
  { operator with frequency := operator.frequency.set part value }

end Operator

structure Channel where
  index : UInt8
  operators : Vector Operator 4 := Vector.ofFn fun j => { index := UInt8.ofNat j }
  frequency : Frequency := {}
  feedback : UInt8 := 0
  algorithm : UInt8 := 0
  stereoLeft : Bool := false
  stereoRight : Bool := false
  lfoAmplitudeSensitivity : UInt8 := 0
  lfoFrequencySensitivity : UInt8 := 0
  deriving DecidableEq

namespace Channel

def modifyOperator (channel : Channel) (j : Fin 4) (change : Operator → Operator) : Channel :=
  { channel with operators := channel.operators.set j (change (channel.operators.get j)) }

def setFrequency (part : FrequencyPart) (value : UInt8) (channel : Channel) : Channel :=
  { channel with frequency := channel.frequency.set part value }

def setAlgorithmFeedback (value : UInt8) (channel : Channel) : Channel :=
  { channel with feedback := bits value 3 3, algorithm := bits value 0 3 }

def setStereoSensitivity (value : UInt8) (channel : Channel) : Channel :=
  { channel with
    stereoLeft := bit value 7
    stereoRight := bit value 6
    lfoAmplitudeSensitivity := bits value 4 2
    lfoFrequencySensitivity := bits value 0 3 }

/-- Turns the keys of all four operators on or off, by bits 4 to 7 of the value. -/
def setKeys (value : UInt8) (channel : Channel) : Channel :=
  { channel with
    operators := channel.operators.mapFinIdx fun j operator _ =>
      { operator with enabled := bit value (4 + j) } }

end Channel
end Ym2612
end SoundLog
