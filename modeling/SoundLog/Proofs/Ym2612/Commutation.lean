import SoundLog.Proofs.Ym2612.Cells
import SoundLog.Proofs.Ym2612.LastWrites

/-!
# Writes that commute

Every cell of the state is reached through one register of one port, so writes to different
registers do not meet in any cell. One write can still bear on another through the mode of the chip,
which decides what the pitch registers of the last channel of a port stand for. All other pairs of
writes to different registers can be swapped.
-/

namespace SoundLog
namespace Ym2612

variable {special special' : Bool} {port port' : Port} {register register' value value' : UInt8}

/-- The mode bears only on the pitch registers of the last channel of a port. -/
theorem route_ofRegister_congr (hmode : register = 0xA2 ∨ register = 0xA6 → special = special') :
    route special port value (Target.ofRegister register) =
      route special' port value (Target.ofRegister register) := by
  cases htarget : Target.ofRegister register with
  | frequency slot half =>
    by_cases hslot : slot = 2
    · subst hslot
      have hregister : register = UInt8.ofNat (half.block + 2) :=
        (Target.ofRegister_eq_iff rfl register).mp htarget
      have hshared : register = 0xA2 ∨ register = 0xA6 := by
        rw [hregister]
        cases half
        · exact Or.inl rfl
        · exact Or.inr rfl
      rw [hmode hshared]
    · simp [route, hslot]
  | global target => cases target <;> rfl
  | _ => rfl

namespace Cell

variable {cell : Cell}

theorem reached_congr (hmode : register = 0xA2 ∨ register = 0xA6 → special = special') :
    cell.Reached special port register value ↔ cell.Reached special' port register value := by
  cases cell with
  | part c p => rw [Reached, Reached, route_ofRegister_congr hmode]
  | _ => exact Iff.rfl

theorem Reached.unique (h : cell.Reached special port register value)
    (h' : cell.Reached special port' register' value') : (port, register) = (port', register') := by
  cases cell with
  | part c p =>
    by_cases hkeys : p.group = .keys
    · rw [Reached, hkeys] at h h'
      obtain ⟨rfl, rfl, -⟩ := route_ofRegister_eq_keys.mp h
      obtain ⟨rfl, rfl, -⟩ := route_ofRegister_eq_keys.mp h'
      rfl
    · have hplace := (route_eq_some_iff_place hkeys).mp h
      have hplace' := (route_eq_some_iff_place hkeys).mp h'
      exact Option.some.inj (hplace.symm.trans hplace')
  | control k =>
    have haddress : (Target.global k.register).address? =
        some (UInt8.ofNat k.register.address) := rfl
    obtain ⟨rfl, htarget⟩ := h
    obtain ⟨rfl, htarget'⟩ := h'
    rw [(Target.ofRegister_eq_iff haddress _).mp htarget,
      (Target.ofRegister_eq_iff haddress _).mp htarget']
  | mode =>
    obtain ⟨rfl, rfl, -⟩ := h
    obtain ⟨rfl, rfl, -⟩ := h'
    rfl
  | stored port'' register'' =>
    obtain ⟨rfl, rfl⟩ := h
    obtain ⟨rfl, rfl⟩ := h'
    rfl
  | channelNumber c | operatorNumber c j => exact h.elim

end Cell

namespace Chip

variable (chip : Chip)

/-- The first write switches the mode, and the second goes to a register that stands for something
else in the other mode. -/
def Couples (port : Port) (register value register' : UInt8) : Prop :=
  port = 0 ∧ register = 0x27 ∧ (chip.write port register value).specialMode ≠ chip.specialMode ∧
    (register' = 0xA2 ∨ register' = 0xA6)

/-- A write that is not coupled to another one leaves open where the other goes. -/
theorem reached_write_iff (hfree : ¬ chip.Couples port register value register') (cell : Cell)
    (port' : Port) (value' : UInt8) :
    cell.Reached (chip.write port register value).specialMode port' register' value' ↔
      cell.Reached chip.specialMode port' register' value' := by
  apply Cell.reached_congr
  intro hshared
  by_contra hswitched
  have hmode := chip.specialMode_write port register value
  by_cases hregister : port = 0 ∧ register = 0x27
  · exact hfree ⟨hregister.1, hregister.2, hswitched, hshared⟩
  · rw [if_neg hregister] at hmode
    exact hswitched hmode

/-- Writes to different registers lead to the same state in either order, unless one of them
switches the mode and the other goes to a pitch register of the last channel of a port. -/
theorem write_comm (hplace : (port, register) ≠ (port', register'))
    (hfree : ¬ chip.Couples port register value register')
    (hfree' : ¬ chip.Couples port' register' value' register) :
    (chip.write port register value).write port' register' value' =
      (chip.write port' register' value').write port register value := by
  apply ext_cells
  intro cell
  have hlater := chip.reached_write_iff hfree cell port' value'
  have hlater' := chip.reached_write_iff hfree' cell port value
  by_cases hfirst : cell.Reached chip.specialMode port register value
  · have hsecond : ¬ cell.Reached chip.specialMode port' register' value' :=
      fun hsecond => hplace (hfirst.unique hsecond)
    rw [Cell.value_write_of_not_reached (mt hlater.mp hsecond), Cell.value_write_of_reached hfirst,
      Cell.value_write_of_reached (hlater'.mpr hfirst)]
  · rw [Cell.value_write_of_not_reached (mt hlater'.mp hfirst)]
    by_cases hsecond : cell.Reached chip.specialMode port' register' value'
    · rw [Cell.value_write_of_reached (hlater.mpr hsecond), Cell.value_write_of_reached hsecond]
    · rw [Cell.value_write_of_not_reached (mt hlater.mp hsecond),
        Cell.value_write_of_not_reached hfirst, Cell.value_write_of_not_reached hsecond]

/-- A write in special mode that keeps the mode, and one through port 1 to a register that stands for
the pitch of an operator in this mode. -/
theorem write_comm_in_special_mode :
    let chip := run [.write 0 0x27 0x40]
    let value : UInt8 := 0x6F
    ((0 : Port), (0x27 : UInt8)) ≠ (1, 0xA6) ∧ ¬ chip.Couples 0 0x27 value 0xA6 ∧
      ¬ chip.Couples 1 0xA6 0x2A 0x27 ∧
      (chip.write 0 0x27 value).write 1 0xA6 0x2A = (chip.write 1 0xA6 0x2A).write 0 0x27 value ∧
      ((((chip.write 1 0xA6 0x2A).write 0 0x27 value).channels.get 5).operators.get
        0).frequency.octave = 5 := by
  intro chip value
  have hplace : ((0 : Port), (0x27 : UInt8)) ≠ (1, 0xA6) := by decide
  have hfree : ¬ chip.Couples 0 0x27 value 0xA6 := by
    rintro ⟨-, -, hswitched, -⟩
    revert hswitched
    decide +kernel
  have hfree' : ¬ chip.Couples 1 0xA6 0x2A 0x27 := by
    rintro ⟨hport, -⟩
    cases hport
  refine ⟨hplace, hfree, hfree', chip.write_comm hplace hfree hfree', ?_⟩
  decide +kernel

/-- Writes that are coupled can be swapped only where the swap does not show: the pitch of the
channel and that of its operator 0 both hold what the write brings. -/
theorem held_of_switch_comm {half : FrequencyPart}
    (hswitched : (chip.write 0 0x27 value).specialMode ≠ chip.specialMode)
    (hcomm : (chip.write 0 0x27 value).write port (UInt8.ofNat (half.block + 2)) value' =
      (chip.write port (UInt8.ofNat (half.block + 2)) value').write 0 0x27 value)
    {pitch : Pitch} (hhalf : pitch.half = half) :
    let channel := chip.channels.get (port.channel 2)
    pitch.value channel.frequency = pitch.span.read value' ∧
      pitch.value (channel.operators.get 0).frequency = pitch.span.read value' := by
  have hswitch : ∀ special, route special 0 value (Target.ofRegister 0x27) = none := fun _ => rfl
  have hshared : Target.ofRegister (UInt8.ofNat (half.block + 2)) = .frequency 2 half :=
    Target.ofRegister_of_address? rfl
  -- one of the two pitches is written in one order only, the other in the other order only
  have hsame : ∀ part : Part,
      part.value (((chip.write 0 0x27 value).write port (UInt8.ofNat (half.block + 2))
        value').channels.get (port.channel 2)) =
      part.value (((chip.write port (UInt8.ofNat (half.block + 2)) value').write 0 0x27
        value).channels.get (port.channel 2)) := by
    rw [hcomm]
    exact fun _ => rfl
  have hgroup : ∀ special,
      (route special port value' (.frequency 2 half) = some (port.channel 2, .pitch half) ↔
        special = false) ∧
      (route special port value' (.frequency 2 half) =
        some (port.channel 2, .operatorPitch 0 half) ↔ special = true) := by
    intro special
    cases special <;> simp [route]
  have hpitch := hsame (.pitch pitch)
  have hoperator := hsame (.operatorPitch 0 pitch)
  simp only [part_write, hswitch, hshared, Part.group, hhalf, reduceCtorEq, if_false, hgroup]
    at hpitch hoperator
  cases hbefore : chip.specialMode <;> cases hafter : (chip.write 0 0x27 value).specialMode
  · exact absurd (hafter.trans hbefore.symm) hswitched
  · simp only [hbefore, hafter, reduceCtorEq, if_true, if_false] at hpitch hoperator
    exact ⟨hpitch, hoperator.symm⟩
  · simp only [hbefore, hafter, reduceCtorEq, if_true, if_false] at hpitch hoperator
    exact ⟨hpitch.symm, hoperator⟩
  · exact absurd (hafter.trans hbefore.symm) hswitched

end Chip
end Ym2612
end SoundLog
