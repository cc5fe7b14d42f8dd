import SoundLog.Proofs.Ym2612.Writes
import SoundLog.Voice.Basic

/-!
# Writes that voices hear

Some registers hold what a voice is made of, and only writes to these change the voices of the chip.
What such a write does to the voices is told by the voices alone: neither the mode of the chip nor
its keys, pitches or other settings have a part in it.
-/

namespace SoundLog
namespace Ym2612

/-! ## Registers of voices -/

def IsVoiceRegister (register : UInt8) : Prop :=
  (0xB0 ≤ register ∧ register ≤ 0xB2) ∨
    (0x30 ≤ register ∧ register ≤ 0x8F ∧ register.toNat % 4 ≠ 3)

instance : DecidablePred IsVoiceRegister := fun register =>
  inferInstanceAs (Decidable ((0xB0 ≤ register ∧ register ≤ 0xB2) ∨
    (0x30 ≤ register ∧ register ≤ 0x8F ∧ register.toNat % 4 ≠ 3)))

/-- Whether a group of parts belongs to the voice of its channel. -/
def Group.isVoiced : Group → Bool
  | .settings _ _ => true
  | .algorithmFeedback => true
  | _ => false

/-- The group that a voice register stands for and its place on the port. -/
def Target.voiced? : Target → Option (Fin 3 × Group)
  | .operator slot j field => some (slot, .settings j field)
  | .algorithmFeedback slot => some (slot, .algorithmFeedback)
  | _ => none

theorem isSome_voiced?_iff (register : UInt8) :
    (Target.ofRegister register).voiced?.isSome = true ↔ IsVoiceRegister register := by
  revert register
  decide +kernel

/-- The mode of the chip has no part in where the writes to a voice register go. -/
theorem route_of_voiced {target : Target} {slot : Fin 3} {group : Group}
    (h : target.voiced? = some (slot, group)) (special : Bool) (port : Port) (value : UInt8) :
    group.isVoiced = true ∧ route special port value target = some (port.channel slot, group) := by
  cases target with
  | operator | algorithmFeedback =>
    cases h
    exact ⟨rfl, rfl⟩
  | _ => cases h

/-- Other writes go to groups that no voice has. -/
theorem isVoiced_of_route {target : Target} (h : target.voiced? = none) {special : Bool}
    {port : Port} {value : UInt8} {c : Fin 6} {group : Group}
    (hroute : route special port value target = some (c, group)) : group.isVoiced = false := by
  cases target with
  | operator | algorithmFeedback => cases h
  | unmapped | proprietary => cases hroute
  | operatorFrequency | stereoSensitivity =>
    cases hroute
    rfl
  | frequency slot half =>
    simp only [route] at hroute
    split at hroute <;> cases hroute <;> rfl
  | global register =>
    cases register with
    | keyOnOff =>
      simp only [route] at hroute
      split at hroute
      · obtain ⟨i, -, hi⟩ := Option.map_eq_some_iff.mp hroute
        cases hi
        rfl
      · cases hroute
    | _ => cases hroute

/-! ## Voices of channels -/

theorem Operator.voice_set_congr {left right : Operator} (h : left.voice = right.voice)
    (field : OperatorField) (value : UInt8) :
    (left.set field value).voice = (right.set field value).voice := by
  simp only [voice, OperatorVoice.mk.injEq] at h
  cases field <;> simp [set, voice, h]

theorem Channel.get_voice_operators (channel : Channel) (j : Fin 4) :
    channel.voice.operators.get j = (channel.operators.get j).voice :=
  Vector.getElem_map _ j.isLt

theorem Channel.voice_ext {left right : Channel} (hindex : left.index = right.index)
    (halgorithm : left.algorithm = right.algorithm) (hfeedback : left.feedback = right.feedback)
    (hoperators : ∀ j, (left.operators.get j).voice = (right.operators.get j).voice) :
    left.voice = right.voice := by
  have hvoices : left.voice.operators = right.voice.operators := by
    apply Vector.ext
    intro j hj
    have hget := hoperators ⟨j, hj⟩
    rw [← get_voice_operators, ← get_voice_operators] at hget
    exact hget
  exact (Voice.mk.injEq ..).mpr ⟨hindex, halgorithm, hfeedback, hvoices⟩

theorem Channel.voice_change_of_not_voiced {group : Group} (h : group.isVoiced = false)
    (channel : Channel) (value : UInt8) : (channel.change value group).voice = channel.voice := by
  cases group with
  | settings | algorithmFeedback => cases h
  | pitch | stereoSensitivity => rfl
  | operatorPitch j half =>
    refine voice_ext rfl rfl rfl fun k => ?_
    rw [change, get_modifyOperator]
    split <;> rfl
  | keys =>
    refine voice_ext rfl rfl rfl fun k => ?_
    rw [change, get_setKeys]
    rfl

theorem Channel.voice_change_congr {left right : Channel} (h : left.voice = right.voice)
    {group : Group} (hvoiced : group.isVoiced = true) (value : UInt8) :
    (left.change value group).voice = (right.change value group).voice := by
  have hindex : left.index = right.index := congrArg Voice.index h
  have hoperators : ∀ j, (left.operators.get j).voice = (right.operators.get j).voice := by
    intro j
    rw [← get_voice_operators, h, get_voice_operators]
  cases group with
  | operatorPitch | keys | pitch | stereoSensitivity => cases hvoiced
  | settings j field =>
    refine voice_ext hindex (congrArg Voice.algorithm h) (congrArg Voice.feedback h) fun k => ?_
    rw [change, change, get_modifyOperator, get_modifyOperator]
    split
    · exact Operator.voice_set_congr (hoperators k) field value
    · exact hoperators k
  | algorithmFeedback => exact voice_ext hindex rfl rfl hoperators

/-! ## Voices of the chip -/

namespace Chip

theorem get_voices (chip : Chip) (c : Fin 6) :
    chip.voices.get c = (chip.channels.get c).voice := Vector.getElem_map _ c.isLt

theorem voices_ext {left right : Chip}
    (h : ∀ c, (left.channels.get c).voice = (right.channels.get c).voice) :
    left.voices = right.voices := by
  apply Vector.ext
  intro c hc
  have hget := h ⟨c, hc⟩
  rw [← get_voices, ← get_voices] at hget
  exact hget

theorem voices_write_of_not_voice (chip : Chip) (port : Port) {register : UInt8}
    (h : ¬ IsVoiceRegister register) (value : UInt8) :
    (chip.write port register value).voices = chip.voices := by
  have hnone : (Target.ofRegister register).voiced? = none :=
    Option.not_isSome_iff_eq_none.mp (mt (isSome_voiced?_iff register).mp h)
  refine voices_ext fun c => ?_
  obtain ⟨group, hroute, hchannel⟩ | ⟨-, hchannel⟩ := chip.write_cases port value register c
  · rw [hchannel, Channel.voice_change_of_not_voiced (isVoiced_of_route hnone hroute)]
  · rw [hchannel]

/-- Chips with the same voices have the same voices after the same write. -/
theorem voices_write_congr {left right : Chip} (h : left.voices = right.voices) (port : Port)
    (register value : UInt8) :
    (left.write port register value).voices = (right.write port register value).voices := by
  by_cases hvoice : IsVoiceRegister register
  · obtain ⟨⟨slot, group⟩, hvoiced⟩ :=
      Option.isSome_iff_exists.mp ((isSome_voiced?_iff register).mpr hvoice)
    refine voices_ext fun c => ?_
    obtain ⟨hgroup, hleft⟩ := route_of_voiced hvoiced left.specialMode port value
    obtain ⟨-, hright⟩ := route_of_voiced hvoiced right.specialMode port value
    have hc : (left.channels.get c).voice = (right.channels.get c).voice := by
      rw [← get_voices, h, get_voices]
    rw [channels_write, channels_write, hleft, hright, deliver, deliver, get_modifyChannel,
      get_modifyChannel]
    split
    · exact Channel.voice_change_congr hc hgroup value
    · exact hc
  · rw [voices_write_of_not_voice left port hvoice, voices_write_of_not_voice right port hvoice, h]

end Chip
end Ym2612
end SoundLog
