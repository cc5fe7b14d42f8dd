import SoundLog.Proofs.Ym2612.Cells
import SoundLog.Proofs.Ym2612.LastWrites

/-!
# Mirror images of the ports

Both ports have the same registers for their three channels. So a chip whose ports are exchanged,
with the channels and the stored registers behind them, stays the mirror image of the chip as long
as all writes go through the other port, in special mode too. Left out are only the registers of the
whole chip, which port 1 does not have.
-/

namespace SoundLog
namespace Ym2612

/-! ## Mirror images -/

/-- The channel in the same place of the other port. -/
def opposite (c : Fin 6) : Fin 6 := c + 3

/-- The channel with what another one holds, but with its own number and those of its operators. -/
def Channel.holding (channel contents : Channel) : Channel :=
  { contents with
    index := channel.index
    operators := Vector.ofFn fun j =>
      { contents.operators.get j with index := (channel.operators.get j).index } }

/-- The chip with its ports exchanged: the channels of one hold what those of the other held, and so
do the register banks. All numbers stay in their places, and so do the settings of the whole
chip. -/
def Chip.mirror (chip : Chip) : Chip :=
  { chip with
    channels := Vector.ofFn fun c =>
      (chip.channels.get c).holding (chip.channels.get (opposite c))
    banks := Vector.ofFn fun port : Port => chip.banks.get port.flip }

def Action.mirror : Action → Action
  | write port register value => write (port ^^^ 1) register value
  | reset => reset

def globalRegisters : List UInt8 := [0x22, 0x26, 0x27, 0x28, 0x2A, 0x2B]

def Action.AvoidsGlobals : Action → Prop
  | write _ register _ => register ∉ globalRegisters
  | reset => True

instance : DecidablePred Action.AvoidsGlobals
  | .write _ register _ => inferInstanceAs (Decidable (register ∉ globalRegisters))
  | .reset => inferInstanceAs (Decidable True)

/-! ## Ports and channels -/

theorem Port.ofByte_xor_one (b : UInt8) : Port.ofByte (b ^^^ 1) = (Port.ofByte b).flip := by
  revert b
  decide +kernel

theorem Port.eq_flip_iff {port port' : Port} : port = port'.flip ↔ port.flip = port' := by
  revert port port'
  decide

theorem Port.channel_flip (port : Port) (slot : Fin 3) :
    port.flip.channel slot = opposite (port.channel slot) := by
  revert port slot
  decide

theorem opposite_eq_iff {c d : Fin 6} : opposite c = d ↔ c = opposite d := by
  revert c d
  decide

theorem Target.ofRegister_ne_global {register : UInt8} (h : register ∉ globalRegisters)
    (global : Global) : Target.ofRegister register ≠ .global global := by
  intro htarget
  obtain rfl := (Target.ofRegister_eq_iff rfl register).mp htarget
  revert h
  cases global <;> decide

/-- A write through the other port reaches the same group of the opposite channel. -/
theorem route_flip (special : Bool) (port : Port) (value : UInt8) {target : Target}
    (htarget : ∀ global, target ≠ .global global) : route special port.flip value target =
      (route special port value target).map (Prod.map opposite id) := by
  cases target with
  | global global => exact absurd rfl (htarget global)
  | unmapped | proprietary => rfl
  | frequency slot half =>
    simp only [route, Port.channel_flip]
    split <;> rfl
  | _ =>
    simp only [route, Port.channel_flip]
    rfl

/-! ## Cells -/

theorem Channel.get_holding (channel contents : Channel) (j : Fin 4) :
    (channel.holding contents).operators.get j =
      { contents.operators.get j with index := (channel.operators.get j).index } :=
  Vector.getElem_ofFn j.isLt

theorem Part.value_holding (part : Part) (channel contents : Channel) :
    part.value (channel.holding contents) = part.value contents := by
  cases part with
  | setting j setting =>
    simp only [Part.value, Channel.get_holding]
    cases setting <;> rfl
  | operatorPitch j pitch | key j => simp only [Part.value, Channel.get_holding]
  | _ => rfl

namespace Chip

theorem get_channels_mirror (chip : Chip) (c : Fin 6) : chip.mirror.channels.get c =
    (chip.channels.get c).holding (chip.channels.get (opposite c)) :=
  Vector.getElem_ofFn c.isLt

theorem read_mirror (chip : Chip) (port : Port) (register : UInt8) :
    chip.mirror.read port register = chip.read port.flip register := by
  have hbank : chip.mirror.banks.get port = chip.banks.get port.flip :=
    Vector.getElem_ofFn port.isLt
  rw [read, hbank, read]

end Chip

namespace Cell

/-- The cell that the mirror image of a chip shows in the place of a cell. -/
def mirror : Cell → Cell
  | part c p => part (opposite c) p
  | stored port register => stored port.flip register
  | cell => cell

theorem value_mirror (chip : Chip) (cell : Cell) :
    cell.value chip.mirror = cell.mirror.value chip := by
  cases cell with
  | part c p =>
    simp only [value, mirror, Chip.get_channels_mirror, Part.value_holding]
  | control k => cases k <;> rfl
  | mode => rfl
  | stored port register => simp only [value, mirror, Chip.read_mirror]
  | channelNumber c =>
    simp only [value, mirror, Chip.get_channels_mirror]
    rfl
  | operatorNumber c j =>
    simp only [value, mirror, Chip.get_channels_mirror, Channel.get_holding]

theorem taken_mirror (value : UInt8) (cell : Cell) :
    cell.mirror.taken value = cell.taken value := by
  cases cell <;> rfl

theorem reached_flip_iff {special : Bool} {port : Port} {register value : UInt8}
    (hregister : register ∉ globalRegisters) (cell : Cell) :
    cell.Reached special port.flip register value ↔
      cell.mirror.Reached special port register value := by
  have htarget := Target.ofRegister_ne_global hregister
  cases cell with
  | part c p =>
    simp only [mirror, Reached, route_flip special port value htarget]
    cases route special port value (Target.ofRegister register) with
    | none => simp
    | some reached => simp [Prod.ext_iff, opposite_eq_iff]
  | control k =>
    exact iff_of_false (fun h => htarget _ h.2) (fun h => htarget _ h.2)
  | mode =>
    have hmode : register ≠ 0x27 := by
      rintro rfl
      exact hregister (by decide)
    exact iff_of_false (fun h => hmode h.2.1) (fun h => hmode h.2.1)
  | stored port' register' => exact and_congr Port.eq_flip_iff Iff.rfl
  | channelNumber c | operatorNumber c j => exact Iff.rfl

end Cell

/-! ## Writes -/

namespace Chip

/-- The mirror image of a chip takes a write through the other port as the chip takes the write. -/
theorem write_mirror (chip : Chip) (port : Port) {register : UInt8}
    (hregister : register ∉ globalRegisters) (value : UInt8) :
    chip.mirror.write port.flip register value = (chip.write port register value).mirror := by
  apply ext_cells
  intro cell
  rw [Cell.value_mirror]
  have hiff : cell.Reached chip.mirror.specialMode port.flip register value ↔
      cell.mirror.Reached chip.specialMode port register value := cell.reached_flip_iff hregister
  by_cases hreached : cell.mirror.Reached chip.specialMode port register value
  · rw [Cell.value_write_of_reached (hiff.mpr hreached), Cell.value_write_of_reached hreached,
      Cell.taken_mirror]
  · rw [Cell.value_write_of_not_reached (mt hiff.mp hreached),
      Cell.value_write_of_not_reached hreached, Cell.value_mirror]

theorem mirror_start : ({} : Chip).mirror = {} := by
  apply ext_cells
  intro cell
  rw [Cell.value_mirror]
  cases cell with
  | part c p => rw [Cell.mirror, Cell.value, Cell.value, Part.value_start, Part.value_start]
  | stored port register => rw [Cell.mirror, Cell.value, Cell.value, read_start, read_start]
  | _ => rfl

theorem perform_mirror (chip : Chip) {action : Action} (h : action.AvoidsGlobals) :
    action.mirror.perform chip.mirror = (action.perform chip).mirror := by
  cases action with
  | write port register value =>
    rw [Action.mirror, Action.perform, Port.ofByte_xor_one]
    exact chip.write_mirror _ h value
  | reset => exact mirror_start.symm

/-- Whatever is done to a chip, without its global registers, does the mirror image of it to the
mirror image of the chip when it comes through the other port. -/
theorem performAll_mirror (chip : Chip) {actions : List Action}
    (hactions : ∀ action ∈ actions, action.AvoidsGlobals) :
    chip.mirror.performAll (actions.map Action.mirror) = (chip.performAll actions).mirror := by
  induction actions generalizing chip with
  | nil => rfl
  | cons action actions ih =>
    obtain ⟨haction, hrest⟩ := List.forall_mem_cons.mp hactions
    have hperform := chip.perform_mirror haction
    change (action.mirror.perform chip.mirror).performAll (actions.map Action.mirror) = _
    rw [hperform]
    exact ih (action.perform chip) hrest

/-- Writes in special mode that reach the pitches of channel 2 and its operators, an operator of
channel 3 and an empty place, and their mirror images. -/
theorem performAll_mirror_in_special_mode :
    let chip := run [.write 0 0x27 0x40, .write 0 0xB0 0x07, .write 1 0xA6 0x3F]
    let actions : List Action :=
      [.write 0 0xA6 0x22, .write 2 0xAD 0x1A, .write 3 0x44 0x7F, .write 1 0x33 0x55]
    (∀ action ∈ actions, action.AvoidsGlobals) ∧
      chip.mirror.performAll (actions.map Action.mirror) = (chip.performAll actions).mirror ∧
      ((chip.mirror.performAll (actions.map Action.mirror)).channels.get 5).operators.map
        (·.frequency.msb) = #v[2, 0, 2, 0] ∧
      (chip.mirror.performAll (actions.map Action.mirror)).read 0 0x33 = some 0x55 := by
  intro chip actions
  have hactions : ∀ action ∈ actions, action.AvoidsGlobals := by decide
  refine ⟨hactions, chip.performAll_mirror hactions, ?_, ?_⟩
  · decide +kernel
  · decide +kernel

end Chip
end Ym2612
end SoundLog
