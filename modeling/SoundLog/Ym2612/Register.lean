import SoundLog.Ym2612.Port

/-!
# Registers

A bank remembers the last value written to each register of a port. What a register controls depends
only on its address: `Target.ofRegister` decodes it for both ports. In the blocks from 30 to 8F the
lowest two bits of an address choose the channel of the port and the next two the operator; the
fourth place of a channel is empty throughout.
-/

namespace SoundLog
namespace Ym2612

/-- The last value written to each register, if it has been written. -/
structure RegisterBank where
  values : Vector (Option UInt8) 256 := Vector.replicate 256 none
  deriving DecidableEq

namespace RegisterBank

def read (bank : RegisterBank) (register : UInt8) : Option UInt8 :=
  have := register.toNat_lt
  bank.values[register.toNat]

def write (bank : RegisterBank) (register value : UInt8) : RegisterBank :=
  ⟨bank.values.set register.toNat (some value) register.toNat_lt⟩

@[simp] theorem read_empty (register : UInt8) : read {} register = none := by simp [read]

theorem read_write (bank : RegisterBank) (register value other : UInt8) :
    (bank.write register value).read other =
      if other = register then some value else bank.read other := by
  simp only [read, write, Vector.getElem_set, UInt8.toNat_inj, eq_comm]

theorem ext_read {a b : RegisterBank} (h : ∀ register, a.read register = b.read register) :
    a = b := by
  cases a with
  | mk x =>
    cases b with
    | mk y =>
      congr 1
      apply Vector.ext
      intro i hi
      have hread := h (UInt8.ofNat i)
      have hnat : (UInt8.ofNat i).toNat = i := by
        rw [UInt8.toNat_ofNat']
        exact Nat.mod_eq_of_lt hi
      simpa only [read, hnat] using hread

end RegisterBank

inductive Global
  | lfo
  | timerB
  | timersAndMode
  | keyOnOff
  | dacData
  | dacEnable
  deriving DecidableEq

inductive OperatorField
  | detuneMultiply
  | volumeInverse
  | rateScalingAttack
  | amplitudeModulationDecay1
  | decay2
  | secondaryAmplitudeRelease
  deriving DecidableEq

inductive FrequencyPart
  | low
  | high
  deriving DecidableEq

/-- What a register controls. -/
inductive Target
  | unmapped
  | proprietary
  | global (register : Global)
  | operator (slot : Fin 3) (operator : Fin 4) (field : OperatorField)
  | frequency (slot : Fin 3) (part : FrequencyPart)
  /-- The frequency of one of the operators 1 to 3 of the last channel of a port. -/
  | operatorFrequency (operator : Fin 4) (part : FrequencyPart)
  | algorithmFeedback (slot : Fin 3)
  | stereoSensitivity (slot : Fin 3)
  deriving DecidableEq

namespace Target

/-- The place of a channel that the lowest two bits of an address give. -/
def slot? (register : UInt8) : Option (Fin 3) :=
  let place := register.toNat % 4
  if h : place < 3 then some ⟨place, h⟩ else none

def operatorOf (register : UInt8) : Fin 4 := Fin.ofNat 4 (register.toNat / 4)

def global? (register : UInt8) : Option Global :=
  if register = 0x22 then some .lfo
  else if register = 0x26 then some .timerB
  else if register = 0x27 then some .timersAndMode
  else if register = 0x28 then some .keyOnOff
  else if register = 0x2A then some .dacData
  else if register = 0x2B then some .dacEnable
  else none

/-- The field of the operators that a block of 16 addresses holds. -/
def operatorField? (register : UInt8) : Option OperatorField :=
  match register.toNat / 16 with
  | 0x3 => some .detuneMultiply
  | 0x4 => some .volumeInverse
  | 0x5 => some .rateScalingAttack
  | 0x6 => some .amplitudeModulationDecay1
  | 0x7 => some .decay2
  | 0x8 => some .secondaryAmplitudeRelease
  | _ => none

/-- What the fours of addresses from A0 to BF hold for the channel in a place. -/
def channelTarget? (register : UInt8) (slot : Fin 3) : Option Target :=
  match register.toNat / 4 with
  | 0x28 => some (frequency slot .low)
  | 0x29 => some (frequency slot .high)
  | 0x2A => some (operatorFrequency slot.succ .low)
  | 0x2B => some (operatorFrequency slot.succ .high)
  | 0x2C => some (algorithmFeedback slot)
  | 0x2D => some (stereoSensitivity slot)
  | _ => none

def ofRegister (register : UInt8) : Target :=
  if 0x90 ≤ register ∧ register ≤ 0x9E then proprietary
  else
    match global? register, slot? register with
    | some target, _ => global target
    | none, none => unmapped
    | none, some slot =>
      match operatorField? register with
      | some field => operator slot (operatorOf register) field
      | none => (channelTarget? register slot).getD unmapped

end Target
end Ym2612
end SoundLog
