import Mathlib.Data.Set.Insert
import SoundLog.Proofs.Ym2612.Cells
import SoundLog.Proofs.Ym2612.Keys

/-!
# The frame of a write

A write is stored in its bank and changes nothing else but what its register controls: some settings
of one operator, some parts of one channel, a pitch, the keys of a channel, or settings of the whole
chip. All other cells of the state, those of the other channels and operators included, are what
they were.
-/

namespace SoundLog
namespace Ym2612

namespace Chip

/-- The two states hold the same in every cell that is not among these. -/
def ChangesWithin (before : Chip) (cells : Set Cell) (after : Chip) : Prop :=
  ∀ cell ∉ cells, cell.value after = cell.value before

end Chip

/-- The registers with a target of their own, apart from those of the whole chip: the fourth place
of the channels is empty throughout. -/
def IsChannelRegister (register : UInt8) : Prop :=
  (0x30 ≤ register ∧ register ≤ 0x8F ∨ 0xA0 ≤ register ∧ register ≤ 0xB6) ∧ register.toNat % 4 < 3

/-- What a write of the value to the register of the port may change. -/
structure Chip.Frame (chip : Chip) (port : Port) (register value : UInt8) (after : Chip) :
    Prop where
  /-- The register reads the value. -/
  read_eq : after.read port register = some value
  /-- All other registers of both ports read what they did. -/
  read_of_ne (port' : Port) (register' : UInt8) (hne : (port', register') ≠ (port, register)) :
    after.read port' register' = chip.read port' register'
  /-- In a block of operator registers, the settings of one operator that the block holds. -/
  operator (slot : Fin 3) (j : Fin 4) (field : OperatorField)
    (hregister : register = UInt8.ofNat (field.block + (4 * j + slot))) :
    chip.ChangesWithin
      (insert (.stored port register) {cell | ∃ setting : Setting, setting.field = field ∧
        cell = .part (port.channel slot) (.setting j setting)}) after
  /-- The algorithm and the feedback of one channel. -/
  algorithmFeedback (slot : Fin 3) (hregister : register = UInt8.ofNat (0xB0 + slot)) :
    chip.ChangesWithin
      {.stored port register, .part (port.channel slot) .algorithm,
        .part (port.channel slot) .feedback} after
  /-- The sides and the sensitivities of one channel. -/
  stereoSensitivity (slot : Fin 3) (hregister : register = UInt8.ofNat (0xB4 + slot)) :
    chip.ChangesWithin
      {.stored port register, .part (port.channel slot) .stereoLeft,
        .part (port.channel slot) .stereoRight,
        .part (port.channel slot) .lfoAmplitudeSensitivity,
        .part (port.channel slot) .lfoFrequencySensitivity} after
  /-- One half of the pitch of a channel, or of its operator 0 if it is the last one of its port and
  the mode is the special one. -/
  frequency (slot : Fin 3) (half : FrequencyPart)
    (hregister : register = UInt8.ofNat (half.block + slot)) :
    chip.ChangesWithin
      (insert (.stored port register) {cell | ∃ pitch : Pitch, pitch.half = half ∧
        cell = .part (port.channel slot)
          (if slot = 2 ∧ chip.specialMode = true then .operatorPitch 0 pitch else .pitch pitch)})
      after
  /-- One half of the pitch of one of the other operators of the last channel. -/
  operatorFrequency (j : Fin 3) (half : FrequencyPart)
    (hregister : register = UInt8.ofNat (half.operatorBlock + j)) :
    chip.ChangesWithin
      (insert (.stored port register) {cell | ∃ pitch : Pitch, pitch.half = half ∧
        cell = .part (port.channel 2) (.operatorPitch j.succ pitch)}) after
  /-- The keys of the selected channel. -/
  keys (hport : port = 0) (hregister : register = 0x28) (c : Fin 6)
    (hselector : value.toNat % 8 = keySelector c) :
    chip.ChangesWithin (insert (.stored port register) (Set.range fun j => .part c (.key j))) after
  /-- Two selectors select no channel. -/
  noKeys (hport : port = 0) (hregister : register = 0x28)
    (hselector : value.toNat % 8 = 3 ∨ value.toNat % 8 = 7) :
    chip.ChangesWithin {.stored port register} after
  /-- The other registers of the whole chip change no channel. -/
  global (hport : port = 0) (target : Global) (hkeys : target ≠ .keyOnOff)
    (hregister : register = UInt8.ofNat target.address) : after.channels = chip.channels
  /-- On port 1 these registers have no effect. -/
  mirror (hport : port = 1) (target : Global)
    (hregister : register = UInt8.ofNat target.address) :
    chip.ChangesWithin {.stored port register} after
  /-- All other registers have none on either port. -/
  unmapped (hglobal : ∀ target : Global, register ≠ UInt8.ofNat target.address)
    (hchannel : ¬ IsChannelRegister register) : chip.ChangesWithin {.stored port register} after

instance (register : UInt8) : Decidable (IsChannelRegister register) :=
  inferInstanceAs (Decidable ((_ ∨ _) ∧ _))

theorem isChannelRegister_iff {register : UInt8} : IsChannelRegister register ↔
    ∃ target : Target, target.address? = some register ∧
      ∀ global : Global, target ≠ .global global := by
  constructor
  · intro hchannel
    refine ⟨Target.ofRegister register, ?_, ?_⟩
    · revert register
      decide +kernel
    · intro global htarget
      obtain rfl := (Target.ofRegister_eq_iff rfl register).mp htarget
      revert hchannel
      cases global <;> decide
  · rintro ⟨target, haddress, hlocal⟩
    cases target with
    | unmapped | proprietary => cases haddress
    | global global => exact absurd rfl (hlocal global)
    | operator slot j field =>
      obtain rfl := Option.some.inj haddress
      clear haddress hlocal
      revert slot j
      cases field <;> decide +kernel
    | frequency slot half =>
      obtain rfl := Option.some.inj haddress
      clear haddress hlocal
      revert slot
      cases half <;> decide
    | operatorFrequency j half =>
      clear hlocal
      revert haddress register j
      cases half <;> decide +kernel
    | algorithmFeedback slot | stereoSensitivity slot =>
      obtain rfl := Option.some.inj haddress
      clear haddress hlocal
      revert slot
      decide

theorem ofRegister_of_not_isChannelRegister {register : UInt8}
    (hglobal : ∀ target : Global, register ≠ UInt8.ofNat target.address)
    (hchannel : ¬ IsChannelRegister register) :
    Target.ofRegister register = .unmapped ∨ Target.ofRegister register = .proprietary := by
  have hnone : (Target.ofRegister register).address? = none := by
    rcases Target.address?_ofRegister register with hnone | haddress
    · exact hnone
    · apply absurd _ hchannel
      refine isChannelRegister_iff.mpr ⟨_, haddress, ?_⟩
      intro target htarget
      exact hglobal target ((Target.ofRegister_eq_iff rfl register).mp htarget)
  have hfirst := ofRegister_ne_operatorFrequency register
  cases htarget : Target.ofRegister register with
  | unmapped => exact Or.inl rfl
  | proprietary => exact Or.inr rfl
  | operatorFrequency j half =>
    rw [htarget] at hnone hfirst
    by_cases hj : j = 0
    · exact absurd (congrArg (Target.operatorFrequency · half) hj) (hfirst half)
    · cases (if_neg hj).symm.trans hnone
  | _ =>
    rw [htarget] at hnone
    cases hnone

namespace Chip

variable (chip : Chip) {port : Port} {register value : UInt8}

/-- The register of the port holds none of the settings of the whole chip. -/
def HoldsNoControl (port : Port) (register : UInt8) : Prop :=
  ∀ control : Control, ¬ (port = 0 ∧ Target.ofRegister register = .global control.register)

theorem changesWithin_write (hcontrol : HoldsNoControl port register) {cells : Set Cell}
    (hparts : ∀ (c : Fin 6) (part : Part),
      route chip.specialMode port value (Target.ofRegister register) = some (c, part.group) →
        .part c part ∈ cells) :
    chip.ChangesWithin (insert (.stored port register) cells) (chip.write port register value) := by
  intro cell hcell
  apply Cell.value_write_of_not_reached
  intro hreached
  cases cell with
  | part c part => exact hcell (Set.mem_insert_of_mem _ (hparts c part hreached))
  | control control => exact hcontrol control hreached
  | mode =>
    obtain ⟨hport, rfl, -⟩ := hreached
    exact hcontrol .timerALoad ⟨hport, Target.ofRegister_of_address? rfl⟩
  | stored port' register' =>
    obtain ⟨rfl, rfl⟩ := hreached
    exact hcell (Set.mem_insert _ _)
  | channelNumber c | operatorNumber c j => exact hreached

theorem changesWithin_of_no_route (hcontrol : HoldsNoControl port register)
    (hroute : route chip.specialMode port value (Target.ofRegister register) = none) :
    chip.ChangesWithin {.stored port register} (chip.write port register value) := by
  rw [← insert_empty_eq]
  apply chip.changesWithin_write hcontrol
  intro c part hreached
  cases hroute.symm.trans hreached

section

variable {target : Target} (haddress : target.address? = some register)
include haddress

theorem holdsNoControl_of_address (hlocal : ∀ control : Control, target ≠ .global control.register) :
    HoldsNoControl port register := by
  rintro control ⟨-, htarget⟩
  exact hlocal control ((Target.ofRegister_of_address? haddress).symm.trans htarget)

theorem changesWithin_of_address (hlocal : ∀ control : Control, target ≠ .global control.register)
    {c : Fin 6} {group : Group}
    (hroute : route chip.specialMode port value target = some (c, group)) {cells : Set Cell}
    (hgroup : ∀ part : Part, part.group = group → .part c part ∈ cells) :
    chip.ChangesWithin (insert (.stored port register) cells) (chip.write port register value) := by
  apply chip.changesWithin_write (holdsNoControl_of_address haddress hlocal)
  rw [Target.ofRegister_of_address? haddress]
  intro c' part hreached
  obtain ⟨rfl, rfl⟩ := Prod.mk.inj (Option.some.inj (hroute.symm.trans hreached))
  exact hgroup part rfl

end

theorem changesWithin_frequency (slot : Fin 3) (half : FrequencyPart)
    (hregister : register = UInt8.ofNat (half.block + slot)) :
    chip.ChangesWithin
      (insert (.stored port register) {cell | ∃ pitch : Pitch, pitch.half = half ∧
        cell = .part (port.channel slot)
          (if slot = 2 ∧ chip.specialMode = true then .operatorPitch 0 pitch else .pitch pitch)})
      (chip.write port register value) := by
  have haddress : (Target.frequency slot half).address? = some register := congrArg some hregister.symm
  by_cases hspecial : slot = 2 ∧ chip.specialMode = true
  · have hroute : route chip.specialMode port value (.frequency slot half) =
        some (port.channel slot, .operatorPitch 0 half) := if_pos (by simpa using hspecial)
    apply chip.changesWithin_of_address haddress (by simp) hroute
    intro part hgroup
    cases part with
    | operatorPitch k pitch =>
      cases hgroup
      exact ⟨pitch, rfl, by rw [if_pos hspecial]⟩
    | _ => cases hgroup
  · have hroute : route chip.specialMode port value (.frequency slot half) =
        some (port.channel slot, .pitch half) := if_neg (by simpa using hspecial)
    apply chip.changesWithin_of_address haddress (by simp) hroute
    intro part hgroup
    cases part with
    | pitch pitch =>
      cases hgroup
      exact ⟨pitch, rfl, by rw [if_neg hspecial]⟩
    | _ => cases hgroup

theorem ne_keyOnOff (control : Control) : Target.global .keyOnOff ≠ .global control.register := by
  cases control <;> simp [Control.register]

theorem changesWithin_unmapped (hglobal : ∀ target : Global, register ≠ UInt8.ofNat target.address)
    (hchannel : ¬ IsChannelRegister register) :
    chip.ChangesWithin {.stored port register} (chip.write port register value) := by
  have htarget := ofRegister_of_not_isChannelRegister hglobal hchannel
  apply chip.changesWithin_of_no_route
  · rintro control ⟨-, hcontrol⟩
    rw [hcontrol] at htarget
    simp at htarget
  · rcases htarget with htarget | htarget <;> rw [htarget] <;> rfl

end Chip

/-- Every write stays within its frame, whatever the state and whatever the port byte, of which the
lowest bit counts. -/
theorem write_frame (chip : Chip) (port register value : UInt8) :
    chip.Frame (Port.ofByte port) register value
      (Action.perform chip (.write port register value)) where
  read_eq := (chip.read_write _ value register _ register).trans (if_pos ⟨rfl, rfl⟩)
  read_of_ne port' register' hne := by
    rw [Action.perform, Chip.read_write, if_neg]
    rintro ⟨rfl, rfl⟩
    exact hne rfl
  operator slot j field hregister := by
    have haddress : (Target.operator slot j field).address? = some register :=
      congrArg some hregister.symm
    apply chip.changesWithin_of_address haddress (by simp) rfl
    intro part hgroup
    cases part with
    | setting k setting =>
      cases hgroup
      exact ⟨setting, rfl, rfl⟩
    | _ => cases hgroup
  algorithmFeedback slot hregister := by
    have haddress : (Target.algorithmFeedback slot).address? = some register :=
      congrArg some hregister.symm
    apply chip.changesWithin_of_address haddress (by simp) rfl
    intro part hgroup
    cases part with
    | algorithm | feedback => simp
    | _ => cases hgroup
  stereoSensitivity slot hregister := by
    have haddress : (Target.stereoSensitivity slot).address? = some register :=
      congrArg some hregister.symm
    apply chip.changesWithin_of_address haddress (by simp) rfl
    intro part hgroup
    cases part with
    | stereoLeft | stereoRight | lfoAmplitudeSensitivity | lfoFrequencySensitivity => simp
    | _ => cases hgroup
  frequency slot half hregister := chip.changesWithin_frequency slot half hregister
  operatorFrequency j half hregister := by
    have haddress : (Target.operatorFrequency j.succ half).address? = some register :=
      (Target.address?_operatorFrequency j half).trans (congrArg some hregister.symm)
    apply chip.changesWithin_of_address haddress (by simp) rfl
    intro part hgroup
    cases part with
    | operatorPitch k pitch =>
      cases hgroup
      exact ⟨pitch, rfl, rfl⟩
    | _ => cases hgroup
  keys hport hregister c hselector := by
    have haddress : (Target.global .keyOnOff).address? = some register :=
      congrArg some hregister.symm
    apply chip.changesWithin_of_address haddress Chip.ne_keyOnOff
      (route_eq_keys.mpr ⟨hport, rfl, hselector⟩)
    intro part hgroup
    cases part with
    | key j => exact ⟨j, rfl⟩
    | _ => cases hgroup
  noKeys hport hregister hselector := by
    have haddress : (Target.global .keyOnOff).address? = some register :=
      congrArg some hregister.symm
    apply chip.changesWithin_of_no_route
      (Chip.holdsNoControl_of_address haddress Chip.ne_keyOnOff)
    rw [Target.ofRegister_of_address? haddress, route,
      (keyChannel?_eq_none_iff value).mpr hselector, Option.map_none, ite_self]
  global hport target hkeys hregister := by
    have htarget : Target.ofRegister register = .global target :=
      Target.ofRegister_of_address? (congrArg some hregister.symm)
    rw [Action.perform, Chip.channels_write, htarget]
    cases target with
    | keyOnOff => exact absurd rfl hkeys
    | _ => rfl
  mirror hport target hregister := by
    have htarget : Target.ofRegister register = .global target :=
      Target.ofRegister_of_address? (congrArg some hregister.symm)
    apply chip.changesWithin_of_no_route
    · intro control h
      cases hport.symm.trans h.1
    · rw [htarget, hport]
      cases target <;> rfl
  unmapped hglobal hchannel := chip.changesWithin_unmapped hglobal hchannel

end Ym2612
end SoundLog
