import SoundLog.Proofs.Ym2612.History
import SoundLog.Proofs.Ym2612.VoiceWrites

/-!
# The decoded state and the registers

A chip keeps what is written to it twice: in its register banks as it came, and decoded. After every
history the two agree, whatever was written in whatever order: each operator, each channel and each
setting of the chip holds what stands in its own bits of its own register.
-/

namespace SoundLog
namespace Ym2612

/-- The number that is read back from a register; one that has not been written counts as 0. -/
def Chip.stored (chip : Chip) (port : Port) (register : Nat) : Nat :=
  ((chip.read port (UInt8.ofNat register)).getD 0).toNat

/-- The operator holds what is stored for it, at the same place of every block. -/
structure Operator.Holds (operator : Operator) (stored : Nat → Nat) (place : Nat) : Prop where
  detune : operator.detune.toNat = stored (0x30 + place) / 16 % 8
  multiply : operator.multiply.toNat = stored (0x30 + place) % 16
  volumeInverse : operator.volumeInverse.toNat = stored (0x40 + place) % 128
  rateScaling : operator.rateScaling.toNat = stored (0x50 + place) / 64 % 4
  attackRate : operator.attackRate.toNat = stored (0x50 + place) % 32
  amplitudeModulation : operator.amplitudeModulation = (stored (0x60 + place)).testBit 7
  decay1Rate : operator.decay1Rate.toNat = stored (0x60 + place) % 32
  decay2Rate : operator.decay2Rate.toNat = stored (0x70 + place) % 32
  secondaryAmplitude : operator.secondaryAmplitude.toNat = stored (0x80 + place) / 16 % 16
  releaseRate : operator.releaseRate.toNat = stored (0x80 + place) % 16

structure Channel.Holds (channel : Channel) (stored : Nat → Nat) (slot : Nat) : Prop where
  operator (j : Fin 4) : (channel.operators.get j).Holds stored (4 * j + slot)
  feedback : channel.feedback.toNat = stored (0xB0 + slot) / 8 % 8
  algorithm : channel.algorithm.toNat = stored (0xB0 + slot) % 8
  stereoLeft : channel.stereoLeft = (stored (0xB4 + slot)).testBit 7
  stereoRight : channel.stereoRight = (stored (0xB4 + slot)).testBit 6
  lfoAmplitudeSensitivity : channel.lfoAmplitudeSensitivity.toNat = stored (0xB4 + slot) / 16 % 4
  lfoFrequencySensitivity : channel.lfoFrequencySensitivity.toNat = stored (0xB4 + slot) % 8

/-- The settings of the whole chip hold what is stored for them. -/
structure Chip.Holds (chip : Chip) (stored : Nat → Nat) : Prop where
  lfoEnable : chip.lfoEnable = (stored 0x22).testBit 3
  lfoFrequency : chip.lfoFrequency.toNat = stored 0x22 % 8
  dacData : chip.dacData.toNat = stored 0x2A
  dacEnable : chip.dacEnable = (stored 0x2B).testBit 7
  timerBValue : chip.timers.bValue.toNat = stored 0x26
  timerBReset : chip.timers.bReset = (stored 0x27).testBit 5
  timerAReset : chip.timers.aReset = (stored 0x27).testBit 4
  timerBEnable : chip.timers.bEnable = (stored 0x27).testBit 3
  timerAEnable : chip.timers.aEnable = (stored 0x27).testBit 2
  timerBLoad : chip.timers.bLoad = (stored 0x27).testBit 1
  timerALoad : chip.timers.aLoad = (stored 0x27).testBit 0

/-! ## One write -/

/-- The parts whose group has an address hold their bits of what is read back there, and so do the
settings of the whole chip. -/
structure Chip.ReadsBack (chip : Chip) : Prop where
  part (c : Fin 6) (part : Part) {target : Target} {address : UInt8}
    (htarget : part.group.target? (slotOf c) = some target)
    (haddress : target.address? = some address) : part.value (chip.channels.get c) =
      part.span.read ((chip.read (Port.ofChannel c) address).getD 0)
  control (control : Control) : control.value chip =
    control.span.read ((chip.read 0 (UInt8.ofNat control.register.address)).getD 0)

theorem Chip.readsBack_start : ({} : Chip).ReadsBack where
  part c part target address _ _ := by
    rw [Part.value_start, read_start, Option.getD_none, Span.read_zero]
  control control := by
    rw [Control.value_start, read_start, Option.getD_none, Span.read_zero]

theorem Chip.ReadsBack.write {chip : Chip} (h : chip.ReadsBack) (port : Port)
    (register value : UInt8) : (chip.write port register value).ReadsBack where
  part c part target address htarget haddress := by
    rw [part_write, read_write]
    -- the write reaches the part just if it reaches the address that is read back
    simp only [route_eq_some_iff htarget, Target.ofRegister_eq_iff haddress]
    by_cases hreached : port = Port.ofChannel c ∧ register = address
    · rw [if_pos hreached, if_pos ⟨hreached.1.symm, hreached.2.symm⟩, Option.getD_some]
    · rw [if_neg hreached, if_neg fun hsame => hreached ⟨hsame.1.symm, hsame.2.symm⟩]
      exact h.part c part htarget haddress
  control control := by
    have haddress : (Target.global control.register).address? =
        some (UInt8.ofNat control.register.address) := rfl
    rw [control_write, read_write]
    simp only [Target.ofRegister_eq_iff haddress]
    by_cases hreached : port = 0 ∧ register = UInt8.ofNat control.register.address
    · rw [if_pos hreached, if_pos ⟨hreached.1.symm, hreached.2.symm⟩, Option.getD_some]
    · rw [if_neg hreached, if_neg fun hsame => hreached ⟨hsame.1.symm, hsame.2.symm⟩]
      exact h.control control

theorem readsBack_run (history : List Action) : (run history).ReadsBack :=
  run_induction Chip.readsBack_start (fun _ port register value h => h.write port register value)
    history

/-! ## The whole state -/

theorem eq_testBit_of_toNat {b : Bool} {place : Nat} {value : UInt8}
    (h : b.toNat = Span.read ⟨place, 1⟩ value) : b = value.toNat.testBit place :=
  bool_eq_of_toNat (h.trans (toNat_bit value place).symm)

namespace Chip.ReadsBack

variable {chip : Chip}

theorem operator_holds (h : chip.ReadsBack) (c : Fin 6) (j : Fin 4) :
    ((chip.channels.get c).operators.get j).Holds (chip.stored (Port.ofChannel c))
      (4 * j + slotOf c) where
  detune := h.part c (.setting j .detune) rfl rfl
  multiply := (h.part c (.setting j .multiply) rfl rfl).trans (Span.read_low _ _)
  volumeInverse := (h.part c (.setting j .volumeInverse) rfl rfl).trans (Span.read_low _ _)
  rateScaling := h.part c (.setting j .rateScaling) rfl rfl
  attackRate := (h.part c (.setting j .attackRate) rfl rfl).trans (Span.read_low _ _)
  amplitudeModulation :=
    eq_testBit_of_toNat (h.part c (.setting j .amplitudeModulation) rfl rfl)
  decay1Rate := (h.part c (.setting j .decay1Rate) rfl rfl).trans (Span.read_low _ _)
  decay2Rate := (h.part c (.setting j .decay2Rate) rfl rfl).trans (Span.read_low _ _)
  secondaryAmplitude := h.part c (.setting j .secondaryAmplitude) rfl rfl
  releaseRate := (h.part c (.setting j .releaseRate) rfl rfl).trans (Span.read_low _ _)

theorem channel_holds (h : chip.ReadsBack) (c : Fin 6) :
    (chip.channels.get c).Holds (chip.stored (Port.ofChannel c)) (slotOf c) where
  operator j := h.operator_holds c j
  feedback := h.part c .feedback rfl rfl
  algorithm := (h.part c .algorithm rfl rfl).trans (Span.read_low _ _)
  stereoLeft := eq_testBit_of_toNat (h.part c .stereoLeft rfl rfl)
  stereoRight := eq_testBit_of_toNat (h.part c .stereoRight rfl rfl)
  lfoAmplitudeSensitivity := h.part c .lfoAmplitudeSensitivity rfl rfl
  lfoFrequencySensitivity :=
    (h.part c .lfoFrequencySensitivity rfl rfl).trans (Span.read_low _ _)

theorem holds (h : chip.ReadsBack) : chip.Holds (chip.stored 0) where
  lfoEnable := eq_testBit_of_toNat (h.control .lfoEnable)
  lfoFrequency := (h.control .lfoFrequency).trans (Span.read_low _ _)
  dacData := (h.control .dacData).trans (Span.read_whole _)
  dacEnable := eq_testBit_of_toNat (h.control .dacEnable)
  timerBValue := (h.control .timerBValue).trans (Span.read_whole _)
  timerBReset := eq_testBit_of_toNat (h.control .timerBReset)
  timerAReset := eq_testBit_of_toNat (h.control .timerAReset)
  timerBEnable := eq_testBit_of_toNat (h.control .timerBEnable)
  timerAEnable := eq_testBit_of_toNat (h.control .timerAEnable)
  timerBLoad := eq_testBit_of_toNat (h.control .timerBLoad)
  timerALoad := eq_testBit_of_toNat (h.control .timerALoad)

end Chip.ReadsBack

/-! ## Voices -/

theorem Operator.Holds.voice_eq {left right : Operator} {stored : Nat → Nat} {place : Nat}
    (hleft : left.Holds stored place) (hright : right.Holds stored place)
    (hindex : left.index = right.index) : left.voice = right.voice := by
  simp only [Operator.voice, OperatorVoice.mk.injEq, ← UInt8.toNat_inj, hindex,
    hleft.volumeInverse, hright.volumeInverse, hleft.attackRate, hright.attackRate,
    hleft.decay1Rate, hright.decay1Rate, hleft.secondaryAmplitude, hright.secondaryAmplitude,
    hleft.decay2Rate, hright.decay2Rate, hleft.releaseRate, hright.releaseRate, hleft.multiply,
    hright.multiply, hleft.detune, hright.detune, and_self]

theorem Channel.Holds.voice_eq {left right : Channel} {stored : Nat → Nat} {slot : Nat}
    (hleft : left.Holds stored slot) (hright : right.Holds stored slot)
    (hindex : left.index = right.index)
    (hindices : ∀ j, (left.operators.get j).index = (right.operators.get j).index) :
    left.voice = right.voice := by
  have halgorithm : left.algorithm = right.algorithm :=
    UInt8.toNat_inj.mp (hleft.algorithm.trans hright.algorithm.symm)
  have hfeedback : left.feedback = right.feedback :=
    UInt8.toNat_inj.mp (hleft.feedback.trans hright.feedback.symm)
  refine Channel.voice_ext hindex halgorithm hfeedback fun j => ?_
  exact (hleft.operator j).voice_eq (hright.operator j) (hindices j)

theorem Chip.ReadsBack.voices_eq {left right : Chip} (hleft : left.ReadsBack)
    (hright : right.ReadsBack) (hnumbered : left.Numbered) (hnumbered' : right.Numbered)
    (hreads : ∀ port register, left.read port register = right.read port register) :
    left.voices = right.voices := by
  have hstored : left.stored = right.stored := by
    funext port register
    rw [Chip.stored, Chip.stored, hreads]
  refine Chip.voices_ext fun c => ?_
  have hchannel := hleft.channel_holds c
  rw [hstored] at hchannel
  refine hchannel.voice_eq (hright.channel_holds c) ?_ ?_
  · exact (hnumbered.channel c).trans (hnumbered'.channel c).symm
  · intro j
    exact (hnumbered.operator c j).trans (hnumbered'.operator c j).symm

/-- After every history the channels and the settings of the chip hold what is stored for them, so
histories after which every register reads the same lead to the same voices. -/
theorem run_holds (history : List Action) :
    let chip := run history
    (∀ c : Fin 6,
      (chip.channels.get c).Holds (chip.stored (Port.ofChannel c)) (slotOf c)) ∧
      chip.Holds (chip.stored 0) ∧
      ∀ other : List Action,
        (∀ port register, chip.read port register = (run other).read port register) →
          chip.voices = (run other).voices := by
  intro chip
  have hchip : chip.ReadsBack := readsBack_run history
  refine ⟨hchip.channel_holds, hchip.holds, ?_⟩
  intro other hreads
  exact hchip.voices_eq (readsBack_run other) (numbered_run history) (numbered_run other) hreads

/-- Two histories that write the same last values in another order, one of them after a reset. -/
theorem run_holds_reordered :
    let history : List Action := [.write 0 0xB0 0x3A, .write 1 0x40 0x7F]
    let other : List Action :=
      [.write 0 0x30 0x05, .reset, .write 3 0x40 0x12, .write 1 0x40 0x7F, .write 2 0xB0 0x3A]
    (∀ port register, (run history).read port register = (run other).read port register) ∧
      (run history).voices = (run other).voices ∧
      ((run history).channels.get 0).feedback.toNat = 7 := by
  intro history other
  have hhistory : ∀ port register, (run history).read port register =
      if port = 1 ∧ register = 0x40 then some 0x7F
      else if port = 0 ∧ register = 0xB0 then some 0x3A else none := by
    intro port register
    change (Chip.write (Chip.write {} 0 0xB0 0x3A) 1 0x40 0x7F).read port register = _
    simp only [Chip.read_write, Chip.read_start]
  have hother : ∀ port register, (run other).read port register =
      if port = 0 ∧ register = 0xB0 then some 0x3A
      else if port = 1 ∧ register = 0x40 then some 0x7F
      else if port = 1 ∧ register = 0x40 then some 0x12 else none := by
    intro port register
    change (((Chip.write {} 1 0x40 0x12).write 1 0x40 0x7F).write 0 0xB0 0x3A).read
      port register = _
    simp only [Chip.read_write, Chip.read_start]
  have hreads : ∀ port register,
      (run history).read port register = (run other).read port register := by
    intro port register
    rw [hhistory, hother]
    grind
  obtain ⟨hchannels, -, hvoices⟩ := run_holds history
  refine ⟨hreads, hvoices other hreads, (hchannels 0).feedback.trans ?_⟩
  change ((run history).read 0 0xB0 |>.getD 0).toNat / 8 % 8 = 7
  rw [hhistory]
  decide

end Ym2612
end SoundLog
