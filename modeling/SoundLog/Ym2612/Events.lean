import SoundLog.Log
import SoundLog.Ym2612.Chip

/-!
# Events of the chip

What a write has to tell: the write itself, then its effect with the values that the chip holds
after it, or a warning that it has none.
-/

namespace SoundLog
namespace Ym2612

open Log

private def chipEvent (level : Level) (message : String) (fields : List (String × String)) :
    Event :=
  { level, origin := .chip, message, fields }

private def channelEvent (i : Fin 6) (message : String) (fields : List (String × String)) :
    Event :=
  { level := .trace, origin := .channel, message, fields := ("channel", natValue i) :: fields }

private def byteValue (b : UInt8) : String := natValue b.toNat

def Timers.text (timers : Timers) : String :=
  let field (name value : String) : String := name ++ ": " ++ value
  "Timers \x7b " ++ ", ".intercalate
    [field "a_reset" (boolValue timers.aReset), field "a_enable" (boolValue timers.aEnable),
      field "a_load" (boolValue timers.aLoad), field "b_reset" (boolValue timers.bReset),
      field "b_enable" (boolValue timers.bEnable), field "b_load" (boolValue timers.bLoad),
      field "b_value" (byteValue timers.bValue)] ++ " \x7d"

namespace Frequency

/-- The values that a write to one part sets. -/
def partFields (part : FrequencyPart) (frequency : Frequency) : List (String × String) :=
  match part with
  | .low => [("lsb", byteValue frequency.lsb)]
  | .high => [("msb", byteValue frequency.msb), ("octave", byteValue frequency.octave)]

end Frequency

def FrequencyPart.name : FrequencyPart → String
  | low => "lsb"
  | high => "msb"

def OperatorField.message : OperatorField → String
  | detuneMultiply => "set detune/multiply"
  | volumeInverse => "set volume inverse"
  | rateScalingAttack => "set rate scaling/attack"
  | amplitudeModulationDecay1 => "set am/decay 1"
  | decay2 => "set decay 2"
  | secondaryAmplitudeRelease => "set secondary amplitude/release"

def Operator.fieldValues (operator : Operator) : OperatorField → List (String × String)
  | .detuneMultiply =>
    [("detune", byteValue operator.detune), ("multiply", byteValue operator.multiply)]
  | .volumeInverse => [("volume_inverse", byteValue operator.volumeInverse)]
  | .rateScalingAttack =>
    [("rate_scaling", byteValue operator.rateScaling),
      ("attack_rate", byteValue operator.attackRate)]
  | .amplitudeModulationDecay1 =>
    [("amplitude_modulation", boolValue operator.amplitudeModulation),
      ("decay_1_rate", byteValue operator.decay1Rate)]
  | .decay2 => [("decay_2_rate", byteValue operator.decay2Rate)]
  | .secondaryAmplitudeRelease =>
    [("secondary_amplitude", byteValue operator.secondaryAmplitude),
      ("release_rate", byteValue operator.releaseRate)]

namespace Chip

private def operatorEvent (chip : Chip) (i : Fin 6) (j : Fin 4) (message : String)
    (fields : Operator → List (String × String)) : Event :=
  let operator := (chip.channels.get i).operators.get j
  channelEvent i message (("operator", natValue j) :: fields operator)

private def operatorFrequencyEvent (chip : Chip) (i : Fin 6) (j : Fin 4) (part : FrequencyPart) :
    Event :=
  chip.operatorEvent i j ("set special mode frequency " ++ part.name) fun operator =>
    operator.frequency.partFields part

private def unrecognizedEvent (port : Port) (register value : UInt8) : Event :=
  chipEvent .warn "unrecognized or unimplemented register"
    [("port", natValue port), ("register", "0x" ++ Numeral.paddedHex 2 register.toNat),
      ("value", "0x" ++ Numeral.paddedHex 2 value.toNat)]

private def globalEvents (chip : Chip) (value : UInt8) : Global → List Event
  | .lfo =>
    [chipEvent .trace "set lfo"
      [("enable", boolValue chip.lfoEnable), ("frequency", byteValue chip.lfoFrequency)]]
  | .timerB => [chipEvent .trace "set timer b" [("value", byteValue value)]]
  | .timersAndMode =>
    let invalid :=
      match specialMode? value with
      | some _ => []
      | none =>
        [chipEvent .warn "timers/channel 3/6 mode: invalid mode"
          [("mode", natValue (value.toNat / 64))]]
    invalid ++
      [chipEvent .trace "set timers/channel 3/6 mode"
        [("special_mode", boolValue chip.specialMode), ("timers", chip.timers.text)]]
  | .keyOnOff =>
    match keyChannel? value with
    | some i =>
      [channelEvent i "key on/off" [("operators", Numeral.paddedBinary 4 (value.toNat / 16))]]
    | none =>
      [chipEvent .warn "key on/off: invalid channel"
        [("channel_bits", natValue (value.toNat % 8))]]
  | .dacData => [chipEvent .trace "set dac data" [("value", byteValue value)]]
  | .dacEnable => [chipEvent .trace "set dac enable" [("enable", boolValue chip.dacEnable)]]

private def effectEvents (chip : Chip) (port : Port) (register value : UInt8) :
    Target → List Event
  | .unmapped => [unrecognizedEvent port register value]
  | .proprietary =>
    [chipEvent .trace "proprietary register"
      [("port", natValue port), ("register", byteValue register), ("value", byteValue value)]]
  | .global target =>
    if port = 0 then chip.globalEvents value target else [unrecognizedEvent port register value]
  | .operator slot j field =>
    [chip.operatorEvent (port.channel slot) j field.message fun operator =>
      operator.fieldValues field]
  | .frequency slot part =>
    let i := port.channel slot
    if chip.redirectsFrequency slot then [chip.operatorFrequencyEvent i 0 part]
    else
      let frequency := (chip.channels.get i).frequency
      [channelEvent i ("set frequency " ++ part.name) (frequency.partFields part)]
  | .operatorFrequency j part => [chip.operatorFrequencyEvent (port.channel 2) j part]
  | .algorithmFeedback slot =>
    let i := port.channel slot
    [channelEvent i "set algorithm/feedback"
      [("feedback", byteValue (chip.channels.get i).feedback),
        ("algorithm", byteValue (chip.channels.get i).algorithm)]]
  | .stereoSensitivity slot =>
    let i := port.channel slot
    let channel := chip.channels.get i
    [channelEvent i "set stereo/lfo sensitivity"
      [("left", boolValue channel.stereoLeft), ("right", boolValue channel.stereoRight),
        ("ams", byteValue channel.lfoAmplitudeSensitivity),
        ("fms", byteValue channel.lfoFrequencySensitivity)]]

def writeEvents (chip : Chip) (port : Port) (register value : UInt8) : List Event :=
  chipEvent .trace "write"
      [("port", natValue port), ("register", byteValue register), ("value", byteValue value)] ::
    (chip.write port register value).effectEvents port register value (Target.ofRegister register)

end Chip
end Ym2612
end SoundLog
