import SoundLog.Text.Numeral
import SoundLog.Ym2612.Channel

/-!
# The chip

The state of a YM2612 as its registers tell it: six channels, the settings of the whole chip, and
the last value written to every register. A write is recorded as it is and then takes its effect.

In special mode the last channel of each port has a pitch for every operator: writes to its pitch
registers then go to operator 0, and the registers of the other three operators' pitches, which work
in both modes, make up the rest.
-/

namespace SoundLog
namespace Ym2612

/-- The switches of the two timers. -/
structure Timers where
  aReset : Bool := false
  aEnable : Bool := false
  aLoad : Bool := false
  bReset : Bool := false
  bEnable : Bool := false
  bLoad : Bool := false
  /-- What timer B starts from. -/
  bValue : UInt8 := 0
  deriving DecidableEq

/-- The state of the chip; the default is the state at power-on. -/
structure Chip where
  channels : Vector Channel 6 := Vector.ofFn fun i => { index := UInt8.ofNat i }
  lfoEnable : Bool := false
  lfoFrequency : UInt8 := 0
  dacEnable : Bool := false
  /-- The last sample written. -/
  dacData : UInt8 := 0
  timers : Timers := {}
  /-- Whether channels 2 and 5 have a pitch for every operator. -/
  specialMode : Bool := false
  banks : Vector RegisterBank 2 := Vector.replicate 2 {}
  deriving DecidableEq

/-- A channel or operator that does not exist, or an entry past the end of a table. -/
inductive IndexError
  | channel (index : Nat)
  | operator (index : Nat)
  | entry (size index : Nat)
  deriving DecidableEq

def IndexError.message : IndexError → String
  | channel index => "channel index " ++ Numeral.decimal index ++ " out of range"
  | operator index => "operator index " ++ Numeral.decimal index ++ " out of range"
  | entry size index =>
    "index out of bounds: the len is " ++ Numeral.decimal size ++ " but the index is "
      ++ Numeral.decimal index

/-- The mode that the highest two bits of a value choose; two of the four settings are invalid. -/
def specialMode? (value : UInt8) : Option Bool :=
  match value.toNat / 64 with
  | 0 => some false
  | 1 => some true
  | _ => none

/-- The channel whose keys a value is for: the lowest two bits give its place on the port that the
third bit chooses, and the fourth place is empty. -/
def keyChannel? (value : UInt8) : Option (Fin 6) :=
  let place := value.toNat % 4
  if h : place < 3 then some (Port.channel (Fin.ofNat 2 (value.toNat / 4)) ⟨place, h⟩) else none

namespace Chip

def channel? (chip : Chip) (i : Nat) : Option Channel := chip.channels[i]?

def channel (chip : Chip) (i : Nat) : Except IndexError Channel :=
  match chip.channel? i with
  | some channel => .ok channel
  | none => .error (.channel i)

def operator (chip : Chip) (i j : Nat) : Except IndexError Operator := do
  let channel ← chip.channel i
  match channel.operators[j]? with
  | some operator => .ok operator
  | none => .error (.operator j)

def read (chip : Chip) (port : Port) (register : UInt8) : Option UInt8 :=
  (chip.banks.get port).read register

def modifyChannel (chip : Chip) (i : Fin 6) (change : Channel → Channel) : Chip :=
  { chip with channels := chip.channels.set i (change (chip.channels.get i)) }

def modifyOperator (chip : Chip) (i : Fin 6) (j : Fin 4) (change : Operator → Operator) : Chip :=
  chip.modifyChannel i fun channel => channel.modifyOperator j change

def record (chip : Chip) (port : Port) (register value : UInt8) : Chip :=
  { chip with banks := chip.banks.set port ((chip.banks.get port).write register value) }

/-- The timer switches always follow the value; the mode does unless its setting is invalid. -/
def setTimersAndMode (chip : Chip) (value : UInt8) : Chip :=
  { chip with
    specialMode := (specialMode? value).getD chip.specialMode
    timers :=
      { chip.timers with
        bReset := bit value 5
        aReset := bit value 4
        bEnable := bit value 3
        aEnable := bit value 2
        bLoad := bit value 1
        aLoad := bit value 0 } }

/-- The effect of writing a register of the whole chip. -/
def setGlobal (chip : Chip) (value : UInt8) : Global → Chip
  | .lfo => { chip with lfoEnable := bit value 3, lfoFrequency := bits value 0 3 }
  | .timerB => { chip with timers := { chip.timers with bValue := value } }
  | .timersAndMode => chip.setTimersAndMode value
  | .keyOnOff =>
    match keyChannel? value with
    | some i => chip.modifyChannel i (Channel.setKeys value)
    | none => chip
  | .dacData => { chip with dacData := value }
  | .dacEnable => { chip with dacEnable := bit value 7 }

/-- Whether the pitch registers of a place stand for operator 0 instead of the channel. -/
def redirectsFrequency (chip : Chip) (slot : Fin 3) : Bool := slot = 2 && chip.specialMode

/-- The effect of writing a register. The registers of the whole chip have none on port 1. -/
def apply (chip : Chip) (port : Port) (value : UInt8) : Target → Chip
  | .unmapped => chip
  | .proprietary => chip
  | .global register => if port = 0 then chip.setGlobal value register else chip
  | .operator slot j field => chip.modifyOperator (port.channel slot) j (Operator.set field value)
  | .frequency slot part =>
    if chip.redirectsFrequency slot then
      chip.modifyOperator (port.channel slot) 0 (Operator.setFrequency part value)
    else chip.modifyChannel (port.channel slot) (Channel.setFrequency part value)
  | .operatorFrequency j part =>
    chip.modifyOperator (port.channel 2) j (Operator.setFrequency part value)
  | .algorithmFeedback slot =>
    chip.modifyChannel (port.channel slot) (Channel.setAlgorithmFeedback value)
  | .stereoSensitivity slot =>
    chip.modifyChannel (port.channel slot) (Channel.setStereoSensitivity value)

def write (chip : Chip) (port : Port) (register value : UInt8) : Chip :=
  (chip.record port register value).apply port value (Target.ofRegister register)

end Chip
end Ym2612
end SoundLog
