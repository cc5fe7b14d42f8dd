import SoundLog.Proofs.Ym2612.Pitches

/-!
# Cells of the state

The state of a chip is made of cells with a number each: the parts of the channels, the settings of
the whole chip, its mode, the stored registers and the numbers of channels and operators. A write
reaches some of the cells. It puts its value into these and leaves all others as they are, and the
only thing that decides which cells it reaches, apart from the write itself, is the mode.
-/

namespace SoundLog
namespace Ym2612

inductive Cell
  | part (c : Fin 6) (part : Part)
  | control (control : Control)
  | mode
  | stored (port : Port) (register : UInt8)
  | channelNumber (c : Fin 6)
  | operatorNumber (c : Fin 6) (j : Fin 4)

namespace Cell

/-- What a cell holds; a register that has not been written holds nothing. -/
def value (chip : Chip) : Cell → Option Nat
  | part c p => some (p.value (chip.channels.get c))
  | control k => some (k.value chip)
  | mode => some chip.specialMode.toNat
  | stored port register => (chip.read port register).map UInt8.toNat
  | channelNumber c => some (chip.channels.get c).index.toNat
  | operatorNumber c j => some ((chip.channels.get c).operators.get j).index.toNat

end Cell

/-- The cells are the whole state. -/
theorem Chip.ext_cells {left right : Chip} (h : ∀ cell : Cell, cell.value left = cell.value right) :
    left = right := by
  apply Chip.ext_parts
  · constructor
    · intro c
      exact UInt8.toNat_inj.mp (Option.some.inj (h (.channelNumber c)))
    · intro c j
      exact UInt8.toNat_inj.mp (Option.some.inj (h (.operatorNumber c j)))
  · intro c part
    exact Option.some.inj (h (.part c part))
  · intro control
    exact Option.some.inj (h (.control control))
  · exact bool_eq_of_toNat (Option.some.inj (h .mode))
  · intro port register
    exact Option.map_injective (fun _ _ => UInt8.toNat_inj.mp) (h (.stored port register))

/-! ## Writes -/

namespace Cell

/-- A write that meets the chip in the mode reaches the cell. -/
def Reached (special : Bool) (port : Port) (register value : UInt8) : Cell → Prop
  | part c p => route special port value (Target.ofRegister register) = some (c, p.group)
  | control k => port = 0 ∧ Target.ofRegister register = .global k.register
  | mode => port = 0 ∧ register = 0x27 ∧ value.toNat / 64 < 2
  | stored port' register' => port' = port ∧ register' = register
  | channelNumber _ => False
  | operatorNumber _ _ => False

/-- What a cell takes from a value. -/
def taken (value : UInt8) : Cell → Option Nat
  | part _ p => some (p.span.read value)
  | control k => some (k.span.read value)
  | mode => some (value.toNat / 64)
  | stored _ _ => some value.toNat
  | channelNumber _ => none
  | operatorNumber _ _ => none

variable {chip : Chip} {port : Port} {register value : UInt8} {cell : Cell}

theorem value_write_of_reached (h : cell.Reached chip.specialMode port register value) :
    cell.value (chip.write port register value) = cell.taken value := by
  cases cell with
  | part c p => exact congrArg some ((chip.part_write port value register c p).trans (if_pos h))
  | control k => exact congrArg some ((chip.control_write port value register k).trans (if_pos h))
  | mode =>
    obtain ⟨hport, hregister, hvalid⟩ := h
    have hchosen : (decide (value.toNat / 64 = 1)).toNat = value.toNat / 64 := by
      rcases Nat.lt_or_eq_of_le (Nat.le_of_lt_succ hvalid) with hzero | hone
      · rw [Nat.lt_one_iff.mp hzero]
        rfl
      · rw [hone]
        rfl
    simp only [Cell.value, taken, Chip.specialMode_write, hport, hregister, and_self, if_true,
      specialMode?_eq, if_pos hvalid, Option.getD_some, hchosen]
  | stored port' register' =>
    exact congrArg (Option.map UInt8.toNat)
      ((chip.read_write port value register port' register').trans (if_pos h))
  | channelNumber c | operatorNumber c j => exact h.elim

theorem value_write_of_not_reached (h : ¬ cell.Reached chip.specialMode port register value) :
    cell.value (chip.write port register value) = cell.value chip := by
  cases cell with
  | part c p => exact congrArg some ((chip.part_write port value register c p).trans (if_neg h))
  | control k => exact congrArg some ((chip.control_write port value register k).trans (if_neg h))
  | mode =>
    rw [Cell.value, Cell.value, Chip.specialMode_write, specialMode?_eq]
    by_cases hregister : port = 0 ∧ register = 0x27
    · have hinvalid : ¬ value.toNat / 64 < 2 := fun hvalid => h ⟨hregister.1, hregister.2, hvalid⟩
      rw [if_pos hregister, if_neg hinvalid, Option.getD_none]
    · rw [if_neg hregister]
  | stored port' register' =>
    exact congrArg (Option.map UInt8.toNat)
      ((chip.read_write port value register port' register').trans (if_neg h))
  | channelNumber c =>
    rw [Cell.value, Cell.value, (chip.numberedAlike_write port register value).channel]
  | operatorNumber c j =>
    rw [Cell.value, Cell.value, (chip.numberedAlike_write port register value).operator]

end Cell
end Ym2612
end SoundLog
