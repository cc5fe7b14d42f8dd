import SoundLog.Proofs.Ym2612.Addresses
import SoundLog.Proofs.Ym2612.Parts

/-!
# What a write changes

A write goes to at most one group of one channel, or to the settings of the whole chip. So after a
write every part of the state either has taken its bits from the value or is what it was.
-/

namespace SoundLog
namespace Ym2612

/-- The channel that a write reaches and the group of its parts. -/
def route (special : Bool) (port : Port) (value : UInt8) : Target → Option (Fin 6 × Group)
  | .operator slot j field => some (port.channel slot, .settings j field)
  | .frequency slot half =>
    if slot = 2 && special then some (port.channel slot, .operatorPitch 0 half)
    else some (port.channel slot, .pitch half)
  | .operatorFrequency j half => some (port.channel 2, .operatorPitch j half)
  | .algorithmFeedback slot => some (port.channel slot, .algorithmFeedback)
  | .stereoSensitivity slot => some (port.channel slot, .stereoSensitivity)
  | .global .keyOnOff => if port = 0 then (keyChannel? value).map (·, .keys) else none
  | _ => none

/-- What stands for a group of the channel in a place, if the same target always does. -/
def Group.target? (slot : Fin 3) : Group → Option Target
  | .settings j field => some (.operator slot j field)
  | .algorithmFeedback => some (.algorithmFeedback slot)
  | .stereoSensitivity => some (.stereoSensitivity slot)
  | _ => none

theorem route_eq_some_iff {group : Group} {c : Fin 6} {target : Target}
    (h : group.target? (slotOf c) = some target) (special : Bool) (port : Port) (value : UInt8)
    (reached : Target) : route special port value reached = some (c, group) ↔
      port = Port.ofChannel c ∧ reached = target := by
  cases group with
  | operatorPitch | keys | pitch => cases h
  | settings | algorithmFeedback | stereoSensitivity =>
    obtain rfl := Option.some.inj h
    cases reached with
    | global register => cases register <;> simp [route]
    | frequency slot half =>
      simp only [route]
      split <;> simp
    | _ => simp [route, Port.channel_eq_iff, and_assoc]

/-- The settings of the whole chip. -/
inductive Control
  | lfoEnable
  | lfoFrequency
  | dacEnable
  | dacData
  | timerBValue
  | timerBReset
  | timerAReset
  | timerBEnable
  | timerAEnable
  | timerBLoad
  | timerALoad

namespace Control

def value (chip : Chip) : Control → Nat
  | lfoEnable => chip.lfoEnable.toNat
  | lfoFrequency => chip.lfoFrequency.toNat
  | dacEnable => chip.dacEnable.toNat
  | dacData => chip.dacData.toNat
  | timerBValue => chip.timers.bValue.toNat
  | timerBReset => chip.timers.bReset.toNat
  | timerAReset => chip.timers.aReset.toNat
  | timerBEnable => chip.timers.bEnable.toNat
  | timerAEnable => chip.timers.aEnable.toNat
  | timerBLoad => chip.timers.bLoad.toNat
  | timerALoad => chip.timers.aLoad.toNat

def register : Control → Global
  | lfoEnable => .lfo
  | lfoFrequency => .lfo
  | dacEnable => .dacEnable
  | dacData => .dacData
  | timerBValue => .timerB
  | _ => .timersAndMode

def span : Control → Span
  | lfoEnable => ⟨3, 1⟩
  | lfoFrequency => ⟨0, 3⟩
  | dacEnable => ⟨7, 1⟩
  | dacData => ⟨0, 8⟩
  | timerBValue => ⟨0, 8⟩
  | timerBReset => ⟨5, 1⟩
  | timerAReset => ⟨4, 1⟩
  | timerBEnable => ⟨3, 1⟩
  | timerAEnable => ⟨2, 1⟩
  | timerBLoad => ⟨1, 1⟩
  | timerALoad => ⟨0, 1⟩

end Control

namespace Chip

variable (chip : Chip) (port : Port) (value : UInt8)

theorem get_modifyChannel (i c : Fin 6) (change : Channel → Channel) :
    (chip.modifyChannel i change).channels.get c =
      if c = i then change (chip.channels.get c) else chip.channels.get c := by
  simp only [modifyChannel, get_set]
  split
  · next h => rw [h]
  · rfl

def deliver : Option (Fin 6 × Group) → Chip
  | some (i, group) => chip.modifyChannel i fun channel => channel.change value group
  | none => chip

theorem channels_apply (target : Target) : (chip.apply port value target).channels =
    (chip.deliver value (route chip.specialMode port value target)).channels := by
  cases target with
  | global register =>
    by_cases hport : port = 0
    · simp only [apply, route, hport, if_true]
      cases register with
      | keyOnOff =>
        unfold setGlobal
        cases keyChannel? value <;> rfl
      | _ => rfl
    · simp only [apply, route, hport, if_false]
      cases register <;> rfl
  | frequency slot half =>
    by_cases hredirect : chip.redirectsFrequency slot = true
    · rw [apply, route, ← redirectsFrequency, if_pos hredirect, if_pos hredirect]
      rfl
    · rw [apply, route, ← redirectsFrequency, if_neg hredirect, if_neg hredirect]
      rfl
  | _ => rfl

theorem channels_write (register : UInt8) : (chip.write port register value).channels =
    (chip.deliver value
      (route chip.specialMode port value (Target.ofRegister register))).channels := by
  have happly :=
    (chip.record port register value).channels_apply port value (Target.ofRegister register)
  rw [write, happly]
  change ((chip.record port register value).deliver value
    (route chip.specialMode port value (Target.ofRegister register))).channels = _
  cases route chip.specialMode port value (Target.ofRegister register) <;> rfl

/-- A write either changes a channel as one of its groups, or leaves the channel as it was. -/
theorem write_cases (register : UInt8) (c : Fin 6) :
    (∃ group, route chip.specialMode port value (Target.ofRegister register) = some (c, group) ∧
        (chip.write port register value).channels.get c =
          (chip.channels.get c).change value group) ∨
      (∀ group, route chip.specialMode port value (Target.ofRegister register) ≠ some (c, group)) ∧
        (chip.write port register value).channels.get c = chip.channels.get c := by
  rw [channels_write]
  cases route chip.specialMode port value (Target.ofRegister register) with
  | none => exact Or.inr ⟨fun group => (Option.some_ne_none _).symm, rfl⟩
  | some reached =>
    obtain ⟨i, group⟩ := reached
    rw [deliver, get_modifyChannel]
    by_cases hc : c = i
    · subst hc
      exact Or.inl ⟨group, rfl, if_pos rfl⟩
    · refine Or.inr ⟨?_, if_neg hc⟩
      rintro other hother
      exact hc (congrArg Prod.fst (Option.some.inj hother)).symm

/-- A part takes its bits from the writes that are routed to its group, and no other write changes
it. -/
theorem part_write (register : UInt8) (c : Fin 6) (part : Part) :
    part.value ((chip.write port register value).channels.get c) =
      if route chip.specialMode port value (Target.ofRegister register) = some (c, part.group) then
        part.span.read value
      else part.value (chip.channels.get c) := by
  obtain ⟨group, hroute, hchannel⟩ | ⟨hroute, hchannel⟩ := chip.write_cases port value register c
  · simp only [hchannel, hroute, part.value_change, Option.some.injEq, Prod.mk.injEq, true_and,
      eq_comm]
  · rw [hchannel, if_neg (hroute part.group)]

theorem control_modifyChannel (control : Control) (i : Fin 6) (change : Channel → Channel) :
    control.value (chip.modifyChannel i change) = control.value chip := by
  cases control <;> rfl

theorem control_setGlobal (control : Control) (register : Global) :
    control.value (chip.setGlobal value register) =
      if control.register = register then control.span.read value else control.value chip := by
  by_cases h : control.register = register
  · subst h
    rw [if_pos rfl]
    cases control with
    | lfoFrequency => exact toNat_bits value _ (by decide)
    | dacData | timerBValue => exact (Span.read_whole value).symm
    | _ => exact toNat_bit value _
  · rw [if_neg h]
    cases register with
    | keyOnOff =>
      unfold setGlobal
      cases keyChannel? value with
      | none => rfl
      | some i => exact chip.control_modifyChannel control i _
    | _ => cases control <;> first | rfl | exact absurd rfl h

theorem control_write (register : UInt8) (control : Control) :
    control.value (chip.write port register value) =
      if port = 0 ∧ Target.ofRegister register = .global control.register then
        control.span.read value
      else control.value chip := by
  have hrecord : control.value (chip.record port register value) = control.value chip := by
    cases control <;> rfl
  rw [write, ← hrecord]
  generalize chip.record port register value = recorded
  cases Target.ofRegister register with
  | global other =>
    by_cases hport : port = 0
    · simp only [apply, hport, if_true, control_setGlobal, true_and, Target.global.injEq, eq_comm]
    · simp only [apply, hport, if_false, false_and]
  | frequency slot half =>
    simp only [apply, reduceCtorEq, and_false, if_false]
    split <;> exact recorded.control_modifyChannel control _ _
  | unmapped | proprietary => simp only [apply, reduceCtorEq, and_false, if_false]
  | _ =>
    simp only [reduceCtorEq, and_false, if_false]
    exact recorded.control_modifyChannel control _ _

theorem banks_apply (target : Target) : (chip.apply port value target).banks = chip.banks := by
  cases target with
  | global register =>
    by_cases hport : port = 0
    · simp only [apply, hport, if_true]
      cases register with
      | keyOnOff =>
        unfold setGlobal
        cases keyChannel? value <;> rfl
      | _ => rfl
    · simp only [apply, hport, if_false]
  | frequency slot half =>
    simp only [apply]
    split <;> rfl
  | _ => rfl

theorem read_write (register : UInt8) (port' : Port) (register' : UInt8) :
    (chip.write port register value).read port' register' =
      if port' = port ∧ register' = register then some value else chip.read port' register' := by
  have hbanks : (chip.write port register value).banks =
      chip.banks.set port ((chip.banks.get port).write register value) :=
    banks_apply _ _ _ _
  rw [read, hbanks, get_set]
  by_cases hport : port' = port
  · simp only [hport, if_true, RegisterBank.read_write, true_and, read]
  · simp only [hport, if_false, false_and, read]

end Chip
end Ym2612
end SoundLog
