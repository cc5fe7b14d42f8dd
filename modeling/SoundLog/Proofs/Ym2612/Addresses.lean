import Mathlib.Data.FinEnum
import SoundLog.Ym2612.Chip

/-!
# Addresses

A target that a write can reach has one address, the same on both ports, and `Target.ofRegister`
finds just this address. The blocks of the operators have an address for every operator of every
place; the other registers of channels come in threes, one for every place.
-/

namespace SoundLog
namespace Ym2612

/-! ## Places of channels -/

def Port.ofChannel (c : Fin 6) : Port := ⟨c / 3, by omega⟩

def slotOf (c : Fin 6) : Fin 3 := ⟨c % 3, by omega⟩

@[simp] theorem Port.channel_slotOf (c : Fin 6) : (Port.ofChannel c).channel (slotOf c) = c := by
  revert c
  decide

theorem Port.channel_inj {port port' : Port} {slot slot' : Fin 3} :
    port.channel slot = port'.channel slot' ↔ port = port' ∧ slot = slot' := by
  revert port port' slot slot'
  decide

theorem Port.channel_eq_iff {port : Port} {slot : Fin 3} {c : Fin 6} :
    port.channel slot = c ↔ port = Port.ofChannel c ∧ slot = slotOf c := by
  rw [← Port.channel_inj, Port.channel_slotOf]

/-! ## Addresses of targets -/

def Global.address : Global → Nat
  | lfo => 0x22
  | timerB => 0x26
  | timersAndMode => 0x27
  | keyOnOff => 0x28
  | dacData => 0x2A
  | dacEnable => 0x2B

def OperatorField.block : OperatorField → Nat
  | detuneMultiply => 0x30
  | volumeInverse => 0x40
  | rateScalingAttack => 0x50
  | amplitudeModulationDecay1 => 0x60
  | decay2 => 0x70
  | secondaryAmplitudeRelease => 0x80

namespace FrequencyPart

def block : FrequencyPart → Nat
  | low => 0xA0
  | high => 0xA4

/-- The first address for the pitches of operators, that of operator 1. -/
def operatorBlock : FrequencyPart → Nat
  | low => 0xA8
  | high => 0xAC

end FrequencyPart

namespace Target

/-- The address of a target, if it has just one. -/
def address? : Target → Option UInt8
  | unmapped => none
  | proprietary => none
  | global register => some (UInt8.ofNat register.address)
  | operator slot j field => some (UInt8.ofNat (field.block + (4 * j + slot)))
  | frequency slot part => some (UInt8.ofNat (part.block + slot))
  | operatorFrequency j part =>
    if j = 0 then none else some (UInt8.ofNat (part.operatorBlock + j - 1))
  | algorithmFeedback slot => some (UInt8.ofNat (0xB0 + slot))
  | stereoSensitivity slot => some (UInt8.ofNat (0xB4 + slot))

theorem address?_operatorFrequency (j : Fin 3) (part : FrequencyPart) :
    (operatorFrequency j.succ part).address? = some (UInt8.ofNat (part.operatorBlock + j)) := by
  cases part <;> revert j <;> decide

theorem address?_ofRegister (register : UInt8) :
    (ofRegister register).address? = none ∨ (ofRegister register).address? = some register := by
  revert register
  decide +kernel

theorem ofRegister_of_address? {target : Target} {address : UInt8}
    (h : target.address? = some address) : ofRegister address = target := by
  cases target with
  | unmapped | proprietary => cases h
  | global register =>
    obtain rfl := Option.some.inj h
    cases register <;> decide
  | operator slot j field =>
    obtain rfl := Option.some.inj h
    revert slot j
    cases field <;> decide +kernel
  | frequency slot part =>
    obtain rfl := Option.some.inj h
    revert slot
    cases part <;> decide
  | operatorFrequency j part =>
    revert h address j
    cases part <;> decide +kernel
  | algorithmFeedback slot | stereoSensitivity slot =>
    obtain rfl := Option.some.inj h
    revert slot
    decide

theorem ofRegister_eq_iff {target : Target} {address : UInt8} (h : target.address? = some address)
    (register : UInt8) : ofRegister register = target ↔ register = address := by
  constructor
  · rintro rfl
    obtain hnone | hsome := address?_ofRegister register
    · cases hnone.symm.trans h
    · exact Option.some.inj (hsome.symm.trans h)
  · rintro rfl
    exact ofRegister_of_address? h

end Target
end Ym2612
end SoundLog
