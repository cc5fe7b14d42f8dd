import SoundLog.Proofs.Ym2612.Latest

/-!
# Pitches and the special mode

The mode of a chip is told by the latest write that chose one. The pitch of the last channel of a
port and that of its operator 0 share their registers: the mode at the time of a write decides which
of them the write reaches, and a later change of the mode leaves both as they are. All other pitches
follow the latest writes to registers of their own.
-/

namespace SoundLog
namespace Ym2612

/-! ## The mode -/

/-- The writes that choose a mode: the highest two bits of the others are invalid. -/
def choosesMode : Selection := fun _ port register value =>
  port = 0 ∧ register = 0x27 ∧ value.toNat / 64 < 2

/-- Whether the latest write that chose a mode chose the special one. -/
def modeAfter (history : List Action) : Bool :=
  (latest? choosesMode history).any fun value => value.toNat / 64 = 1

namespace Chip

theorem specialMode_apply (chip : Chip) (port : Port) (value : UInt8) (target : Target) :
    (chip.apply port value target).specialMode =
      if port = 0 ∧ target = .global .timersAndMode then
        (specialMode? value).getD chip.specialMode
      else chip.specialMode := by
  cases target with
  | global register =>
    by_cases hport : port = 0
    · simp only [apply, hport, if_true, true_and, Target.global.injEq]
      cases register with
      | keyOnOff =>
        unfold setGlobal
        cases keyChannel? value <;> rfl
      | _ => rfl
    · simp only [apply, hport, if_false, false_and]
  | frequency slot half =>
    simp only [apply, reduceCtorEq, and_false, if_false]
    split <;> rfl
  | unmapped | proprietary => simp only [apply, reduceCtorEq, and_false, if_false]
  | _ =>
    simp only [reduceCtorEq, and_false, if_false]
    rfl

theorem specialMode_write (chip : Chip) (port : Port) (register value : UInt8) :
    (chip.write port register value).specialMode =
      if port = 0 ∧ register = 0x27 then (specialMode? value).getD chip.specialMode
      else chip.specialMode := by
  have haddress : (Target.global .timersAndMode).address? = some 0x27 := rfl
  rw [write, specialMode_apply]
  simp only [Target.ofRegister_eq_iff haddress]
  rfl

end Chip

theorem specialMode?_eq (value : UInt8) :
    specialMode? value =
      if value.toNat / 64 < 2 then some (decide (value.toNat / 64 = 1)) else none := by
  revert value
  decide +kernel

theorem specialMode_run (history : List Action) :
    (run history).specialMode = modeAfter history := by
  induction history using List.reverseRecOn with
  | nil => rfl
  | append_singleton history action ih =>
    rw [run_snoc, modeAfter]
    cases action with
    | reset =>
      rw [latest?_reset]
      rfl
    | write port register value =>
      rw [Action.perform, Chip.specialMode_write, specialMode?_eq, latest?_write, ih, modeAfter]
      by_cases hregister : Port.ofByte port = 0 ∧ register = 0x27
      · by_cases hvalid : value.toNat / 64 < 2
        · simp [choosesMode, hregister, hvalid]
        · simp [choosesMode, hregister, hvalid]
      · have hother : choosesMode history (Port.ofByte port) register value = false :=
          decide_eq_false fun h => hregister ⟨h.1, h.2.1⟩
        simp [hregister, hother]

/-! ## What a write reaches -/

section

variable {special : Bool} {port p : Port} {value : UInt8} {target : Target} {half : FrequencyPart}

theorem route_eq_pitch {slot : Fin 3} :
    route special port value target = some (p.channel slot, .pitch half) ↔
      port = p ∧ target = .frequency slot half ∧ (slot = 2 → special = false) := by
  cases target with
  | global register => cases register <;> simp [route]
  | frequency slot' half' =>
    by_cases hspecial : slot' = 2 ∧ special = true
    · obtain ⟨rfl, rfl⟩ := hspecial
      simp only [route, decide_true, Bool.and_self, if_true, Option.some.injEq, Prod.mk.injEq,
        reduceCtorEq, and_false, Target.frequency.injEq, false_iff]
      rintro ⟨-, ⟨rfl, -⟩, hmode⟩
      cases hmode rfl
    · have hroute : route special port value (.frequency slot' half') =
          some (port.channel slot', .pitch half') := if_neg (by simpa using hspecial)
      rw [hroute, Option.some.injEq, Prod.mk.injEq, Port.channel_inj, Group.pitch.injEq,
        Target.frequency.injEq]
      constructor
      · rintro ⟨⟨rfl, rfl⟩, rfl⟩
        refine ⟨rfl, ⟨rfl, rfl⟩, ?_⟩
        intro hslot
        exact Bool.eq_false_iff.mpr fun hmode => hspecial ⟨hslot, hmode⟩
      · rintro ⟨rfl, ⟨rfl, rfl⟩, -⟩
        exact ⟨⟨rfl, rfl⟩, rfl⟩
  | _ => simp [route]

theorem route_eq_operatorPitch {slot : Fin 3} {j : Fin 4} :
    route special port value target = some (p.channel slot, .operatorPitch j half) ↔
      slot = 2 ∧ port = p ∧
        (target = .frequency 2 half ∧ special = true ∧ j = 0 ∨
          target = .operatorFrequency j half) := by
  cases target with
  | global register => cases register <;> simp [route]
  | frequency slot' half' =>
    by_cases hspecial : slot' = 2 ∧ special = true
    · obtain ⟨rfl, rfl⟩ := hspecial
      have hroute : route true port value (.frequency 2 half') =
          some (port.channel 2, .operatorPitch 0 half') := rfl
      rw [hroute, Option.some.injEq, Prod.mk.injEq, Port.channel_inj, Group.operatorPitch.injEq]
      simp only [Target.frequency.injEq, true_and, reduceCtorEq, or_false]
      constructor
      · rintro ⟨⟨rfl, rfl⟩, rfl, rfl⟩
        exact ⟨rfl, rfl, rfl, rfl⟩
      · rintro ⟨rfl, rfl, rfl, rfl⟩
        exact ⟨⟨rfl, rfl⟩, rfl, rfl⟩
    · have hroute : route special port value (.frequency slot' half') =
          some (port.channel slot', .pitch half') := if_neg (by simpa using hspecial)
      rw [hroute]
      simp only [Option.some.injEq, Prod.mk.injEq, reduceCtorEq, and_false, or_false,
        Target.frequency.injEq, false_iff]
      rintro ⟨-, -, ⟨hslot, -⟩, hmode, -⟩
      exact hspecial ⟨hslot, hmode⟩
  | operatorFrequency j' half' =>
    have hroute : route special port value (.operatorFrequency j' half') =
        some (port.channel 2, .operatorPitch j' half') := rfl
    rw [hroute, Option.some.injEq, Prod.mk.injEq, Port.channel_inj, Group.operatorPitch.injEq]
    simp only [reduceCtorEq, false_and, false_or, Target.operatorFrequency.injEq]
    constructor
    · rintro ⟨⟨rfl, rfl⟩, rfl, rfl⟩
      exact ⟨rfl, rfl, rfl, rfl⟩
    · rintro ⟨rfl, rfl, rfl, rfl⟩
      exact ⟨⟨rfl, rfl⟩, rfl, rfl⟩
  | _ => simp [route]

end

theorem ofRegister_ne_operatorFrequency (register : UInt8) (half : FrequencyPart) :
    Target.ofRegister register ≠ .operatorFrequency 0 half := by
  revert register
  cases half <;> decide +kernel

/-! ## Pitches -/

/-- The writes to a register of a port that meet the chip in the mode. -/
def writesInMode (special : Bool) (port : Port) (register : UInt8) : Selection :=
  fun before port' register' _ =>
    port' = port ∧ register' = register ∧ modeAfter before = special

/-- The pitch has its low byte from one write and its other bits from another. -/
structure Frequency.Holds (frequency : Frequency) (low high : Option UInt8) : Prop where
  lsb : frequency.lsb = low.getD 0
  msb : frequency.msb.toNat = (high.getD 0).toNat % 8
  octave : frequency.octave.toNat = (high.getD 0).toNat / 8 % 8

theorem Frequency.holds_of_value {frequency : Frequency} (written : FrequencyPart → Option UInt8)
    (h : ∀ pitch : Pitch, pitch.value frequency = pitch.span.read ((written pitch.half).getD 0)) :
    frequency.Holds (written .low) (written .high) where
  lsb := UInt8.toNat_inj.mp ((h .lsb).trans (Span.read_whole _))
  msb := (h .msb).trans (Span.read_low _ 3)
  octave := h .octave

theorem Frequency.Holds.eq_start {frequency : Frequency} (h : frequency.Holds none none) :
    frequency = {} := by
  have hmsb : frequency.msb = 0 := UInt8.toNat_inj.mp h.msb
  have hoctave : frequency.octave = 0 := UInt8.toNat_inj.mp h.octave
  obtain ⟨lsb, msb, octave⟩ := frequency
  rw [Frequency.mk.injEq]
  exact ⟨h.lsb, hmsb, hoctave⟩

/-- The latest write of a history that was routed to a group of a channel. -/
def latestRouted? (history : List Action) (c : Fin 6) (group : Group) : Option UInt8 :=
  latest? (fun before port register value =>
    route (modeAfter before) port value (Target.ofRegister register) = some (c, group)) history

section

variable (history : List Action) (port : Port) (half : FrequencyPart)

theorem part_eq_latestRouted (c : Fin 6) (part : Part) :
    part.value ((run history).channels.get c) =
      part.span.read ((latestRouted? history c part.group).getD 0) := by
  rw [part_run, latestRouted?]
  simp only [specialMode_run]

theorem ne_last (slot : Fin 2) : slot.castSucc ≠ (2 : Fin 3) := by
  revert slot
  decide

theorem latestRouted?_pitch (slot : Fin 2) :
    latestRouted? history (port.channel slot.castSucc) (.pitch half) =
      latest? (writesTo port (UInt8.ofNat (half.block + slot))) history := by
  have haddress : (Target.frequency slot.castSucc half).address? =
      some (UInt8.ofNat (half.block + slot)) := rfl
  simp only [latestRouted?, route_eq_pitch, Target.ofRegister_eq_iff haddress, ne_last slot,
    false_implies, and_true]
  rfl

theorem latestRouted?_lastPitch :
    latestRouted? history (port.channel 2) (.pitch half) =
      latest? (writesInMode false port (UInt8.ofNat (half.block + 2))) history := by
  have haddress : (Target.frequency 2 half).address? = some (UInt8.ofNat (half.block + 2)) := rfl
  simp only [latestRouted?, route_eq_pitch, Target.ofRegister_eq_iff haddress, true_implies]
  rfl

theorem latestRouted?_firstOperator :
    latestRouted? history (port.channel 2) (.operatorPitch 0 half) =
      latest? (writesInMode true port (UInt8.ofNat (half.block + 2))) history := by
  have haddress : (Target.frequency 2 half).address? = some (UInt8.ofNat (half.block + 2)) := rfl
  simp only [latestRouted?, route_eq_operatorPitch, Target.ofRegister_eq_iff haddress,
    ofRegister_ne_operatorFrequency, and_true, true_and, or_false]
  rfl

theorem latestRouted?_otherOperator (j : Fin 3) :
    latestRouted? history (port.channel 2) (.operatorPitch j.succ half) =
      latest? (writesTo port (UInt8.ofNat (half.operatorBlock + j))) history := by
  have haddress := Target.address?_operatorFrequency j half
  simp only [latestRouted?, route_eq_operatorPitch, Target.ofRegister_eq_iff haddress,
    Fin.succ_ne_zero, and_false, false_or, true_and]
  rfl

theorem latestRouted?_operatorPitch (slot : Fin 2) (j : Fin 4) :
    latestRouted? history (port.channel slot.castSucc) (.operatorPitch j half) = none := by
  refine latest?_eq_none history ?_
  intro before port' register value
  exact decide_eq_false fun h => ne_last slot (route_eq_operatorPitch.mp h).1

end

theorem pitch_holds (history : List Action) (c : Fin 6) :
    ((run history).channels.get c).frequency.Holds (latestRouted? history c (.pitch .low))
      (latestRouted? history c (.pitch .high)) :=
  Frequency.holds_of_value (fun half => latestRouted? history c (.pitch half))
    fun pitch => part_eq_latestRouted history c (.pitch pitch)

theorem operatorPitch_holds (history : List Action) (c : Fin 6) (j : Fin 4) :
    (((run history).channels.get c).operators.get j).frequency.Holds
      (latestRouted? history c (.operatorPitch j .low))
      (latestRouted? history c (.operatorPitch j .high)) :=
  Frequency.holds_of_value (fun half => latestRouted? history c (.operatorPitch j half))
    fun pitch => part_eq_latestRouted history c (.operatorPitch j pitch)

/-- After every history the chip is in the mode chosen last, and every pitch comes from the latest
writes that were for it. For the last channel of a port and its operator 0 these are the writes to
the same registers in one mode and in the other; the operators of other channels have no pitch. -/
theorem run_pitches (history : List Action) :
    let chip := run history
    chip.specialMode = modeAfter history ∧
      ∀ port : Port,
        (∀ slot : Fin 2,
          let channel := chip.channels.get (port.channel slot.castSucc)
          channel.frequency.Holds
              (latest? (writesTo port (UInt8.ofNat (0xA0 + slot))) history)
              (latest? (writesTo port (UInt8.ofNat (0xA4 + slot))) history) ∧
            ∀ j, (channel.operators.get j).frequency = {}) ∧
          let channel := chip.channels.get (port.channel 2)
          channel.frequency.Holds
              (latest? (writesInMode false port 0xA2) history)
              (latest? (writesInMode false port 0xA6) history) ∧
            (channel.operators.get 0).frequency.Holds
              (latest? (writesInMode true port 0xA2) history)
              (latest? (writesInMode true port 0xA6) history) ∧
            ∀ j : Fin 3, (channel.operators.get j.succ).frequency.Holds
              (latest? (writesTo port (UInt8.ofNat (0xA8 + j))) history)
              (latest? (writesTo port (UInt8.ofNat (0xAC + j))) history) := by
  intro chip
  refine ⟨specialMode_run history, ?_⟩
  intro port
  refine ⟨?_, ?_, ?_, ?_⟩
  · intro slot
    refine ⟨?_, ?_⟩
    · have h := pitch_holds history (port.channel slot.castSucc)
      rwa [latestRouted?_pitch, latestRouted?_pitch] at h
    · intro j
      have h := operatorPitch_holds history (port.channel slot.castSucc) j
      rw [latestRouted?_operatorPitch, latestRouted?_operatorPitch] at h
      exact h.eq_start
  · have h := pitch_holds history (port.channel 2)
    rwa [latestRouted?_lastPitch, latestRouted?_lastPitch] at h
  · have h := operatorPitch_holds history (port.channel 2) 0
    rwa [latestRouted?_firstOperator, latestRouted?_firstOperator] at h
  · intro j
    have h := operatorPitch_holds history (port.channel 2) j.succ
    rwa [latestRouted?_otherOperator, latestRouted?_otherOperator] at h

end Ym2612
end SoundLog
