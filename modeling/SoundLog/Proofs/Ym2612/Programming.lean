import SoundLog.Proofs.Ym2612.LastWrites
import SoundLog.Proofs.Ym2612.VoiceWrites

/-!
# Programming a voice

A voice is made of the bits of 25 registers, one of its channel and six of each operator. Every
voice with numbers of the right size can be programmed: a write to each of these registers, in any
order and whatever their other bits are, leaves the channel with this voice and the other channels
as they were.
-/

namespace SoundLog

open Ym2612

/-! ## Voices that registers can hold -/

/-- The voice of an operator in a place, with numbers that fit into their bits. -/
structure OperatorVoice.Fits (operator : OperatorVoice) (j : Fin 4) : Prop where
  index : operator.index = UInt8.ofNat j
  volumeInverse : operator.volumeInverse ≤ 127
  attackRate : operator.attackRate ≤ 31
  decay1Rate : operator.decay1Rate ≤ 31
  decay1Level : operator.decay1Level ≤ 15
  decay2Rate : operator.decay2Rate ≤ 31
  releaseRate : operator.releaseRate ≤ 15
  multiply : operator.multiply ≤ 15
  detune : operator.detune ≤ 7

structure Voice.Fits (voice : Voice) (c : Fin 6) : Prop where
  index : voice.index = UInt8.ofNat c
  algorithm : voice.algorithm ≤ 7
  feedback : voice.feedback ≤ 7
  operator (j : Fin 4) : (voice.operators.get j).Fits j

/-- What a block of operator registers has to hold for a voice. The bits that no voice keeps come
from `spare`. -/
def OperatorVoice.byte (operator : OperatorVoice) (spare : UInt8) : OperatorField → UInt8
  | .detuneMultiply => spare / 128 * 128 + operator.detune * 16 + operator.multiply
  | .volumeInverse => spare / 128 * 128 + operator.volumeInverse
  | .rateScalingAttack => spare / 32 * 32 + operator.attackRate
  | .amplitudeModulationDecay1 => spare / 32 * 32 + operator.decay1Rate
  | .decay2 => spare / 32 * 32 + operator.decay2Rate
  | .secondaryAmplitudeRelease => operator.decay1Level * 16 + operator.releaseRate

namespace Ym2612

inductive VoiceRegister
  | algorithmFeedback
  | settings (j : Fin 4) (field : OperatorField)

namespace VoiceRegister

def all : List VoiceRegister :=
  algorithmFeedback :: (List.finRange 4).flatMap fun j =>
    [settings j .detuneMultiply, settings j .volumeInverse, settings j .rateScalingAttack,
      settings j .amplitudeModulationDecay1, settings j .decay2,
      settings j .secondaryAmplitudeRelease]

def address (slot : Fin 3) : VoiceRegister → UInt8
  | algorithmFeedback => UInt8.ofNat (0xB0 + slot)
  | settings j field => UInt8.ofNat (field.block + (4 * j + slot))

end VoiceRegister
end Ym2612

namespace Voice

/-- What a register has to hold for a voice. -/
def byte (voice : Voice) (spare : UInt8) : VoiceRegister → UInt8
  | .algorithmFeedback => spare / 64 * 64 + voice.feedback * 8 + voice.algorithm
  | .settings j field => (voice.operators.get j).byte spare field

/-- The writes that program a channel with a voice, on the port of the channel. -/
def programming (voice : Voice) (c : Fin 6) (spare : VoiceRegister → UInt8) :
    List Ym2612.Action :=
  VoiceRegister.all.map fun register =>
    .write (UInt8.ofNat (Port.ofChannel c)) (register.address (slotOf c))
      (voice.byte (spare register) register)

end Voice

namespace Ym2612

/-! ## Bytes -/

def Setting.kept? (operator : OperatorVoice) : Setting → Option UInt8
  | detune => some operator.detune
  | multiply => some operator.multiply
  | volumeInverse => some operator.volumeInverse
  | rateScaling => none
  | attackRate => some operator.attackRate
  | amplitudeModulation => none
  | decay1Rate => some operator.decay1Rate
  | decay2Rate => some operator.decay2Rate
  | secondaryAmplitude => some operator.decay1Level
  | releaseRate => some operator.releaseRate

theorem Setting.read_byte {operator : OperatorVoice} {j : Fin 4} (h : operator.Fits j)
    {setting : Setting} {kept : UInt8} (hkept : setting.kept? operator = some kept)
    (spare : UInt8) : setting.span.read (operator.byte spare setting.field) = kept.toNat := by
  have hspare := spare.toNat_lt
  have hvolume : operator.volumeInverse.toNat ≤ 127 := UInt8.le_iff_toNat_le.mp h.volumeInverse
  have hattack : operator.attackRate.toNat ≤ 31 := UInt8.le_iff_toNat_le.mp h.attackRate
  have hdecay1 : operator.decay1Rate.toNat ≤ 31 := UInt8.le_iff_toNat_le.mp h.decay1Rate
  have hlevel : operator.decay1Level.toNat ≤ 15 := UInt8.le_iff_toNat_le.mp h.decay1Level
  have hdecay2 : operator.decay2Rate.toNat ≤ 31 := UInt8.le_iff_toNat_le.mp h.decay2Rate
  have hrelease : operator.releaseRate.toNat ≤ 15 := UInt8.le_iff_toNat_le.mp h.releaseRate
  have hmultiply : operator.multiply.toNat ≤ 15 := UInt8.le_iff_toNat_le.mp h.multiply
  have hdetune : operator.detune.toNat ≤ 7 := UInt8.le_iff_toNat_le.mp h.detune
  cases setting with
  | rateScaling | amplitudeModulation => cases hkept
  | _ =>
    cases hkept
    simp only [Span.read, span, field, OperatorVoice.byte, UInt8.toNat_add, UInt8.toNat_mul,
      UInt8.toNat_div, UInt8.reduceToNat]
    omega

theorem read_byte_algorithmFeedback {voice : Voice} {c : Fin 6} (h : voice.Fits c)
    (spare : UInt8) :
    Part.algorithm.span.read (voice.byte spare .algorithmFeedback) = voice.algorithm.toNat ∧
      Part.feedback.span.read (voice.byte spare .algorithmFeedback) = voice.feedback.toNat := by
  have hspare := spare.toNat_lt
  have halgorithm : voice.algorithm.toNat ≤ 7 := UInt8.le_iff_toNat_le.mp h.algorithm
  have hfeedback : voice.feedback.toNat ≤ 7 := UInt8.le_iff_toNat_le.mp h.feedback
  simp only [Span.read, Part.span, Voice.byte, UInt8.toNat_add, UInt8.toNat_mul, UInt8.toNat_div,
    UInt8.reduceToNat]
  omega

theorem Operator.voice_eq_of_kept {operator : Operator} {voice : OperatorVoice}
    (hindex : operator.index = voice.index) (hkept : ∀ (setting : Setting) (kept : UInt8),
      setting.kept? voice = some kept → setting.value operator = kept.toNat) :
    operator.voice = voice :=
  (OperatorVoice.mk.injEq ..).mpr ⟨hindex,
    UInt8.toNat_inj.mp (hkept .volumeInverse _ rfl),
    UInt8.toNat_inj.mp (hkept .attackRate _ rfl),
    UInt8.toNat_inj.mp (hkept .decay1Rate _ rfl),
    UInt8.toNat_inj.mp (hkept .secondaryAmplitude _ rfl),
    UInt8.toNat_inj.mp (hkept .decay2Rate _ rfl),
    UInt8.toNat_inj.mp (hkept .releaseRate _ rfl),
    UInt8.toNat_inj.mp (hkept .multiply _ rfl),
    UInt8.toNat_inj.mp (hkept .detune _ rfl)⟩

/-! ## Registers -/

namespace VoiceRegister

def target (slot : Fin 3) : VoiceRegister → Target
  | algorithmFeedback => .algorithmFeedback slot
  | settings j field => .operator slot j field

def group : VoiceRegister → Group
  | algorithmFeedback => .algorithmFeedback
  | settings j field => .settings j field

theorem mem_all (register : VoiceRegister) : register ∈ all := by
  cases register with
  | algorithmFeedback => exact List.mem_cons_self
  | settings j field =>
    refine List.mem_cons_of_mem _ (List.mem_flatMap.mpr ⟨j, List.mem_finRange j, ?_⟩)
    cases field <;> simp

variable (register : VoiceRegister) (slot : Fin 3)

theorem ofRegister_address : Target.ofRegister (register.address slot) = register.target slot := by
  apply Target.ofRegister_of_address?
  cases register <;> rfl

theorem route_target (special : Bool) (port : Port) (value : UInt8) :
    route special port value (register.target slot) = some (port.channel slot, register.group) := by
  cases register <;> rfl

theorem place?_group (special : Bool) (c : Fin 6) :
    register.group.place? special c =
      some (Port.ofChannel c, register.address (slotOf c)) := by
  cases register <;> rfl

variable {register slot}

theorem address_inj {other : VoiceRegister} (h : register.address slot = other.address slot) :
    register = other := by
  have htarget : register.target slot = other.target slot := by
    rw [← ofRegister_address, h, ofRegister_address]
  cases register <;> cases other <;> cases htarget <;> rfl

end VoiceRegister

/-! ## Programming -/

theorem lastWritten?_eq_some {actions : List Action} {port : Port} {register value : UInt8}
    (hsome : ∃ action ∈ actions, action.valueFor? port register = some value)
    (hall : ∀ action ∈ actions, ∀ other, action.valueFor? port register = some other →
      other = value) : lastWritten? actions port register = some value := by
  have hvalues : actions.filterMap (Action.valueFor? port register) ≠ [] :=
    List.ne_nil_of_mem (List.mem_filterMap.mpr hsome)
  obtain ⟨last, hlast⟩ := Option.isSome_iff_exists.mp (List.getLast?_isSome.mpr hvalues)
  obtain ⟨action, haction, hvalue⟩ := List.mem_filterMap.mp (List.mem_of_getLast? hlast)
  rw [lastWritten?, hlast, hall action haction last hvalue]

theorem ofByte_ofChannel (c : Fin 6) :
    Port.ofByte (UInt8.ofNat (Port.ofChannel c)) = Port.ofChannel c := by
  revert c
  decide

section

variable {voice : Voice} {c : Fin 6} {spare : VoiceRegister → UInt8} {writes : List Action}
  (hwrites : writes.Perm (voice.programming c spare))
include hwrites

theorem mem_programming_iff {action : Action} : action ∈ writes ↔
    ∃ register : VoiceRegister, action = .write (UInt8.ofNat (Port.ofChannel c))
      (register.address (slotOf c)) (voice.byte (spare register) register) := by
  rw [hwrites.mem_iff, Voice.programming, List.mem_map]
  constructor
  · rintro ⟨register, -, rfl⟩
    exact ⟨register, rfl⟩
  · rintro ⟨register, rfl⟩
    exact ⟨register, register.mem_all, rfl⟩

theorem lastWritten?_programming (register : VoiceRegister) :
    lastWritten? writes (Port.ofChannel c) (register.address (slotOf c)) =
      some (voice.byte (spare register) register) := by
  apply lastWritten?_eq_some
  · refine ⟨_, (mem_programming_iff hwrites).mpr ⟨register, rfl⟩, ?_⟩
    rw [Action.valueFor?, if_pos ⟨ofByte_ofChannel c, rfl⟩]
  · intro action haction value hvalue
    obtain ⟨other, rfl⟩ := (mem_programming_iff hwrites).mp haction
    rw [Action.valueFor?] at hvalue
    split at hvalue
    · next haddress =>
      obtain rfl := VoiceRegister.address_inj haddress.2
      exact (Option.some.inj hvalue).symm
    · cases hvalue

theorem isPlainWrite_programming : ∀ action ∈ writes, action.IsPlainWrite := by
  intro action haction
  obtain ⟨register, rfl⟩ := (mem_programming_iff hwrites).mp haction
  have hne : ∀ global : Global, register.address (slotOf c) ≠ UInt8.ofNat global.address := by
    intro global hregister
    have haddress : (Target.global global).address? = some (register.address (slotOf c)) :=
      congrArg some hregister.symm
    have htarget := register.ofRegister_address (slotOf c)
    rw [Target.ofRegister_of_address? haddress] at htarget
    cases register <;> cases htarget
  exact fun _ => ⟨hne .timersAndMode, hne .keyOnOff⟩

theorem part_programmed (chip : Chip) (register : VoiceRegister) (part : Part)
    (hgroup : part.group = register.group) :
    part.value ((chip.performAll writes).channels.get c) =
      part.span.read (voice.byte (spare register) register) := by
  have hkeeps := chip.keepsLast_performAll (isPlainWrite_programming hwrites)
  rw [hkeeps.part, hgroup, register.place?_group, Option.bind_some,
    lastWritten?_programming hwrites]
  rfl

theorem voice_programmed (hvoice : voice.Fits c) {chip : Chip} (hnumbered : chip.Numbered) :
    ((chip.performAll writes).channels.get c).voice = voice := by
  have hkeeps := chip.keepsLast_performAll (isPlainWrite_programming hwrites)
  have hchannel := part_programmed hwrites chip .algorithmFeedback
  obtain ⟨halgorithm, hfeedback⟩ := read_byte_algorithmFeedback hvoice (spare .algorithmFeedback)
  have hoperators : ∀ j, ((chip.performAll writes).channels.get c).voice.operators.get j =
      voice.operators.get j := by
    intro j
    have hfits := hvoice.operator j
    rw [Channel.get_voice_operators]
    apply Operator.voice_eq_of_kept
    · rw [hkeeps.numbered.operator, hnumbered.operator]
      exact hfits.index.symm
    · intro setting kept hkept
      have hgroup : (Part.setting j setting).group =
          (VoiceRegister.settings j setting.field).group := rfl
      exact (part_programmed hwrites chip _ _ hgroup).trans (setting.read_byte hfits hkept _)
  refine (Voice.mk.injEq ..).mpr ⟨?_, ?_, ?_, Vector.ext fun j hj => hoperators ⟨j, hj⟩⟩
  · rw [hkeeps.numbered.channel, hnumbered.channel]
    exact hvoice.index.symm
  · exact UInt8.toNat_inj.mp ((hchannel .algorithm rfl).trans halgorithm)
  · exact UInt8.toNat_inj.mp ((hchannel .feedback rfl).trans hfeedback)

end

theorem Chip.get_channels_write_of_ne (chip : Chip) (register : VoiceRegister) {c other : Fin 6}
    (hother : other ≠ c) (value : UInt8) :
    (chip.write (Port.ofChannel c) (register.address (slotOf c)) value).channels.get other =
      chip.channels.get other := by
  rw [channels_write, register.ofRegister_address, register.route_target, Port.channel_slotOf,
    deliver, get_modifyChannel, if_neg hother]

theorem get_channels_programmed_of_ne {voice : Voice} {c other : Fin 6}
    {spare : VoiceRegister → UInt8} (hother : other ≠ c) (chip : Chip) {writes : List Action}
    (hwrites : ∀ action ∈ writes, action ∈ voice.programming c spare) :
    (chip.performAll writes).channels.get other = chip.channels.get other := by
  induction writes generalizing chip with
  | nil => rfl
  | cons action writes ih =>
    obtain ⟨haction, hrest⟩ := List.forall_mem_cons.mp hwrites
    obtain ⟨register, rfl⟩ := (mem_programming_iff (.refl _)).mp haction
    refine (ih (Action.perform chip _) hrest).trans ?_
    rw [Action.perform, ofByte_ofChannel]
    exact chip.get_channels_write_of_ne register hother _

/-- In whatever order and with whatever spare bits a channel is programmed with a voice that fits
it, after any history, it has this voice then, and the other channels have the voices they had. -/
theorem run_programmed (history : List Action) {voice : Voice} {c : Fin 6} (hvoice : voice.Fits c)
    (spare : VoiceRegister → UInt8) {writes : List Action}
    (hwrites : writes.Perm (voice.programming c spare)) :
    ((run (history ++ writes)).channels.get c).voice = voice ∧
      ∀ other, other ≠ c → ((run (history ++ writes)).channels.get other).voice =
        ((run history).channels.get other).voice := by
  have hrun : run (history ++ writes) = (run history).performAll writes := List.foldl_append
  rw [hrun]
  refine ⟨voice_programmed hwrites hvoice (numbered_run history), ?_⟩
  intro other hother
  rw [get_channels_programmed_of_ne hother _ fun action => hwrites.mem_iff.mp]

/-- Channel 5 is programmed in special mode from the last register to the first, with all spare bits
set, after another voice has been written to it and to channel 2. -/
theorem run_programmed_backwards :
    let voice : Voice :=
      { index := 5
        algorithm := 6
        feedback := 3
        operators := Vector.ofFn fun j =>
          { index := UInt8.ofNat j, volumeInverse := 127 - 9 * UInt8.ofNat j, attackRate := 31,
            decay1Rate := 17 + UInt8.ofNat j, decay1Level := 10, decay2Rate := 5, releaseRate := 12,
            multiply := 15 - UInt8.ofNat j, detune := 7 - UInt8.ofNat j } }
    let history : List Action :=
      [.write 0 0x27 0x40, .write 1 0xB2 0x3F, .write 1 0x3A 0x55, .write 0 0xB2 0x04]
    let writes := (voice.programming 5 fun _ => 0xFF).reverse
    writes.length = 25 ∧ voice.Fits 5 ∧ writes.Perm (voice.programming 5 fun _ => 0xFF) ∧
      ((run (history ++ writes)).channels.get 5).voice = voice ∧
      ((run (history ++ writes)).channels.get 2).voice =
        ((run history).channels.get 2).voice := by
  intro voice history writes
  have hoperator : ∀ j, (voice.operators.get j).Fits j := by
    intro j
    constructor <;> revert j <;> decide +kernel
  have hfits : voice.Fits 5 := ⟨rfl, by decide, by decide, hoperator⟩
  have hperm : writes.Perm (voice.programming 5 fun _ => 0xFF) := List.reverse_perm _
  obtain ⟨hvoice, hothers⟩ := run_programmed history hfits _ hperm
  exact ⟨rfl, hfits, hperm, hvoice, hothers 2 (by decide)⟩

end Ym2612
end SoundLog
