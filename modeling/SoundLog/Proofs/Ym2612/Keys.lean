import SoundLog.Proofs.Ym2612.Latest

/-!
# Keys

One register of port 0 switches the keys of all six channels. The lowest three bits of a value
select the channel, and two of the eight selectors select none. So a key is what the latest write
for its channel has made it, whatever else has been written since, the same register included.
-/

namespace SoundLog
namespace Ym2612

/-! ## Selectors -/

/-- The lowest three bits of the values that are for the keys of a channel. -/
def keySelector (c : Fin 6) : Nat := #v[0, 1, 2, 4, 5, 6].get c

theorem keyChannel?_eq_some_iff (value : UInt8) (c : Fin 6) :
    keyChannel? value = some c ↔ value.toNat % 8 = keySelector c := by
  revert value c
  decide +kernel

theorem keyChannel?_eq_none_iff (value : UInt8) :
    keyChannel? value = none ↔ value.toNat % 8 = 3 ∨ value.toNat % 8 = 7 := by
  revert value
  decide +kernel

/-- The keys of a channel are reached through one register only, and by its selector. -/
theorem route_eq_keys {special : Bool} {port : Port} {value : UInt8} {target : Target}
    {c : Fin 6} : route special port value target = some (c, .keys) ↔
      port = 0 ∧ target = .global .keyOnOff ∧ value.toNat % 8 = keySelector c := by
  cases target with
  | global register =>
    cases register with
    | keyOnOff =>
      by_cases hport : port = 0
      · simp [route, hport, keyChannel?_eq_some_iff]
      · simp [route, hport]
    | _ => simp [route]
  | frequency slot half =>
    simp only [route]
    split <;> simp
  | _ => simp [route]

/-! ## Histories -/

def Chip.key (chip : Chip) (c : Fin 6) (j : Fin 4) : Bool :=
  ((chip.channels.get c).operators.get j).enabled

def switchesKeys (c : Fin 6) : Selection := fun _ port register value =>
  port = 0 ∧ register = 0x28 ∧ value.toNat % 8 = keySelector c

theorem route_ofRegister_eq_keys {special : Bool} {port : Port} {register value : UInt8}
    {c : Fin 6} : route special port value (Target.ofRegister register) = some (c, .keys) ↔
      port = 0 ∧ register = 0x28 ∧ value.toNat % 8 = keySelector c := by
  have haddress : (Target.global .keyOnOff).address? = some 0x28 := rfl
  rw [route_eq_keys, Target.ofRegister_eq_iff haddress]

theorem Chip.key_write (chip : Chip) {port : Port} {register value : UInt8}
    (hother : port = 0 → register = 0x28 → value.toNat % 8 = 3 ∨ value.toNat % 8 = 7)
    (c : Fin 6) (j : Fin 4) : (chip.write port register value).key c j = chip.key c j := by
  apply bool_eq_of_toNat
  have hpart := chip.part_write port value register c (.key j)
  rw [if_neg] at hpart
  · exact hpart
  · intro hroute
    obtain ⟨hport, hregister, hselector⟩ := route_ofRegister_eq_keys.mp hroute
    have hnone := (keyChannel?_eq_none_iff value).mpr (hother hport hregister)
    have hsome := (keyChannel?_eq_some_iff value c).mpr hselector
    cases hnone.symm.trans hsome

theorem key_run (history : List Action) (c : Fin 6) (j : Fin 4) :
    (run history).key c j =
      (latest? (switchesKeys c) history).any fun value => value.toNat.testBit (4 + j) := by
  have hselection : (fun before port register value =>
      decide (route (run before).specialMode port value (Target.ofRegister register) =
        some (c, Group.keys))) = switchesKeys c := by
    funext before port register value
    simp only [route_ofRegister_eq_keys, switchesKeys]
  have hpart : ((run history).key c j).toNat =
      Span.read ⟨4 + j, 1⟩ ((latest? (switchesKeys c) history).getD 0) := by
    rw [← hselection]
    exact part_run history c (.key j)
  apply bool_eq_of_toNat
  rw [hpart]
  cases latest? (switchesKeys c) history with
  | none => exact Span.read_zero _
  | some value => exact (toNat_bit value (4 + j)).symm

/-- After every history a key is on just if its bit is set in the latest write that selected its
channel. Writes that select no channel, writes through port 1 and writes to other registers change
no key. -/
theorem run_keys (history : List Action) :
    (∀ (c : Fin 6) (j : Fin 4), (run history).key c j =
      (latest? (switchesKeys c) history).any fun value => value.toNat.testBit (4 + j)) ∧
    ∀ (chip : Chip) (port register value : UInt8),
      (Port.ofByte port = 0 → register = 0x28 →
        value.toNat % 8 = 3 ∨ value.toNat % 8 = 7) →
      ∀ (c : Fin 6) (j : Fin 4),
        (Action.perform chip (.write port register value)).key c j = chip.key c j := by
  refine ⟨key_run history, ?_⟩
  intro chip port register value hother c j
  exact chip.key_write hother c j

/-- The keys of channel 3 after a write for channel 0, one with selector 3 and one through port 1. -/
example :
    let chip := run [.write 0 0x28 0x54, .write 0 0x28 0xF0, .write 2 0x28 0xA3, .write 1 0x28 0xA4]
    (List.finRange 4).map (chip.key 3) = [true, false, true, false] := by
  decide +kernel

end Ym2612
end SoundLog
