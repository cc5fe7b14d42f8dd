import SoundLog.Proofs.Ym2612.Writes

/-!
# States with the same parts

Operators, channels and chips are the same if they are numbered alike and all their parts have the
same values. So a law about whole states need only be shown part by part.
-/

namespace SoundLog
namespace Ym2612

theorem Frequency.ext_pitches {left right : Frequency}
    (h : ∀ pitch : Pitch, pitch.value left = pitch.value right) : left = right := by
  have hlsb : left.lsb = right.lsb := UInt8.toNat_inj.mp (h .lsb)
  have hmsb : left.msb = right.msb := UInt8.toNat_inj.mp (h .msb)
  have hoctave : left.octave = right.octave := UInt8.toNat_inj.mp (h .octave)
  exact (Frequency.mk.injEq ..).mpr ⟨hlsb, hmsb, hoctave⟩

theorem Operator.ext_parts {left right : Operator} (hindex : left.index = right.index)
    (hsettings : ∀ setting : Setting, setting.value left = setting.value right)
    (hpitches : ∀ pitch : Pitch, pitch.value left.frequency = pitch.value right.frequency)
    (hkey : left.enabled.toNat = right.enabled.toNat) : left = right :=
  (Operator.mk.injEq ..).mpr ⟨hindex,
    UInt8.toNat_inj.mp (hsettings .detune),
    UInt8.toNat_inj.mp (hsettings .multiply),
    UInt8.toNat_inj.mp (hsettings .volumeInverse),
    UInt8.toNat_inj.mp (hsettings .rateScaling),
    UInt8.toNat_inj.mp (hsettings .attackRate),
    bool_eq_of_toNat (hsettings .amplitudeModulation),
    UInt8.toNat_inj.mp (hsettings .decay1Rate),
    UInt8.toNat_inj.mp (hsettings .decay2Rate),
    UInt8.toNat_inj.mp (hsettings .secondaryAmplitude),
    UInt8.toNat_inj.mp (hsettings .releaseRate),
    Frequency.ext_pitches hpitches,
    bool_eq_of_toNat hkey⟩

theorem Channel.ext_parts {left right : Channel} (hindex : left.index = right.index)
    (hindices : ∀ j, (left.operators.get j).index = (right.operators.get j).index)
    (hparts : ∀ part : Part, part.value left = part.value right) : left = right := by
  have hoperators : left.operators = right.operators := by
    apply Vector.ext
    intro j hj
    exact Operator.ext_parts (hindices ⟨j, hj⟩) (fun setting => hparts (.setting ⟨j, hj⟩ setting))
      (fun pitch => hparts (.operatorPitch ⟨j, hj⟩ pitch)) (hparts (.key ⟨j, hj⟩))
  exact (Channel.mk.injEq ..).mpr ⟨hindex, hoperators,
    Frequency.ext_pitches fun pitch => hparts (.pitch pitch),
    UInt8.toNat_inj.mp (hparts .feedback),
    UInt8.toNat_inj.mp (hparts .algorithm),
    bool_eq_of_toNat (hparts .stereoLeft),
    bool_eq_of_toNat (hparts .stereoRight),
    UInt8.toNat_inj.mp (hparts .lfoAmplitudeSensitivity),
    UInt8.toNat_inj.mp (hparts .lfoFrequencySensitivity)⟩

namespace Chip

variable {left right : Chip}

/-- The channels and operators of the two chips have the same numbers. -/
structure NumberedAlike (left right : Chip) : Prop where
  channel (c : Fin 6) : (left.channels.get c).index = (right.channels.get c).index
  operator (c : Fin 6) (j : Fin 4) :
    ((left.channels.get c).operators.get j).index = ((right.channels.get c).operators.get j).index

theorem channels_ext (hnumbered : left.NumberedAlike right)
    (hparts : ∀ (c : Fin 6) (part : Part),
      part.value (left.channels.get c) = part.value (right.channels.get c)) :
    left.channels = right.channels := by
  apply Vector.ext
  intro c hc
  exact Channel.ext_parts (hnumbered.channel ⟨c, hc⟩) (hnumbered.operator ⟨c, hc⟩) (hparts ⟨c, hc⟩)

theorem timers_ext (h : ∀ control : Control, control.value left = control.value right) :
    left.timers = right.timers :=
  (Timers.mk.injEq ..).mpr ⟨
    bool_eq_of_toNat (h .timerAReset),
    bool_eq_of_toNat (h .timerAEnable),
    bool_eq_of_toNat (h .timerALoad),
    bool_eq_of_toNat (h .timerBReset),
    bool_eq_of_toNat (h .timerBEnable),
    bool_eq_of_toNat (h .timerBLoad),
    UInt8.toNat_inj.mp (h .timerBValue)⟩

theorem banks_ext (h : ∀ port register, left.read port register = right.read port register) :
    left.banks = right.banks := by
  apply Vector.ext
  intro port hport
  exact RegisterBank.ext_read fun register => h ⟨port, hport⟩ register

theorem ext_parts (hnumbered : left.NumberedAlike right)
    (hparts : ∀ (c : Fin 6) (part : Part),
      part.value (left.channels.get c) = part.value (right.channels.get c))
    (hcontrols : ∀ control : Control, control.value left = control.value right)
    (hmode : left.specialMode = right.specialMode)
    (hreads : ∀ port register, left.read port register = right.read port register) :
    left = right :=
  (Chip.mk.injEq ..).mpr ⟨channels_ext hnumbered hparts,
    bool_eq_of_toNat (hcontrols .lfoEnable),
    UInt8.toNat_inj.mp (hcontrols .lfoFrequency),
    bool_eq_of_toNat (hcontrols .dacEnable),
    UInt8.toNat_inj.mp (hcontrols .dacData),
    timers_ext hcontrols, hmode, banks_ext hreads⟩

end Chip

/-! ## Numbers -/

theorem Channel.index_change (channel : Channel) (value : UInt8) (group : Group) :
    (channel.change value group).index = channel.index := by
  cases group <;> rfl

theorem Channel.operator_index_change (channel : Channel) (value : UInt8) (group : Group)
    (j : Fin 4) : ((channel.change value group).operators.get j).index =
      (channel.operators.get j).index := by
  cases group with
  | settings k field =>
    simp only [change, get_modifyOperator]
    split
    · cases field <;> rfl
    · rfl
  | operatorPitch k half =>
    simp only [change, get_modifyOperator]
    split <;> rfl
  | keys => rw [change, get_setKeys]
  | _ => rfl

namespace Chip

theorem NumberedAlike.trans {first second third : Chip} (h : first.NumberedAlike second)
    (h' : second.NumberedAlike third) : first.NumberedAlike third :=
  ⟨fun c => (h.channel c).trans (h'.channel c), fun c j => (h.operator c j).trans (h'.operator c j)⟩

theorem numberedAlike_write (chip : Chip) (port : Port) (register value : UInt8) :
    (chip.write port register value).NumberedAlike chip := by
  have hcases := chip.write_cases port value register
  constructor
  · intro c
    rcases hcases c with ⟨group, -, hchannel⟩ | ⟨-, hchannel⟩
    · rw [hchannel, Channel.index_change]
    · rw [hchannel]
  · intro c j
    rcases hcases c with ⟨group, -, hchannel⟩ | ⟨-, hchannel⟩
    · rw [hchannel, Channel.operator_index_change]
    · rw [hchannel]

end Chip
end Ym2612
end SoundLog
