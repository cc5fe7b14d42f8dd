import Mathlib.Data.List.Induction
import SoundLog.Proofs.Ym2612.Extensionality

/-!
# Histories of a chip

A history is what has been done to a chip since power-on: writes through any port byte, and resets.
The channels and operators of every state that a history leads to are numbered by their places.
-/

namespace SoundLog
namespace Ym2612

/-- What is done to a chip. -/
inductive Action
  | write (port register value : UInt8)
  | reset

def Action.perform (chip : Chip) : Action → Chip
  | write port register value => chip.write (Port.ofByte port) register value
  | reset => {}

/-- The chip after a history that starts at power-on. -/
def run (history : List Action) : Chip := history.foldl Action.perform {}

theorem run_snoc (history : List Action) (action : Action) :
    run (history ++ [action]) = Action.perform (run history) action := by
  rw [run, List.foldl_append]
  rfl

/-- What holds at power-on and is kept by every write holds after every history. -/
theorem run_induction {P : Chip → Prop} (hstart : P {})
    (hwrite : ∀ (chip : Chip) (port : Port) (register value : UInt8), P chip →
      P (chip.write port register value)) (history : List Action) : P (run history) := by
  induction history using List.reverseRecOn with
  | nil => exact hstart
  | append_singleton history action ih =>
    rw [run_snoc]
    cases action with
    | write port register value => exact hwrite _ _ register value ih
    | reset => exact hstart

/-! ## The state at power-on -/

theorem Chip.get_channels_start (c : Fin 6) :
    ({} : Chip).channels.get c = { index := UInt8.ofNat c } := Vector.getElem_ofFn c.isLt

theorem Channel.get_operators_start (index : UInt8) (j : Fin 4) :
    ({ index } : Channel).operators.get j = { index := UInt8.ofNat j } := Vector.getElem_ofFn j.isLt

theorem Chip.read_start (port : Port) (register : UInt8) :
    ({} : Chip).read port register = none := by
  have hbank : ({} : Chip).banks.get port = {} := Vector.getElem_replicate port.isLt
  rw [Chip.read, hbank, RegisterBank.read_empty]

theorem Part.value_start (part : Part) (c : Fin 6) :
    part.value (({} : Chip).channels.get c) = 0 := by
  rw [Chip.get_channels_start]
  cases part with
  | setting j s =>
    rw [Part.value, Channel.get_operators_start]
    cases s <;> rfl
  | operatorPitch j p =>
    rw [Part.value, Channel.get_operators_start]
    cases p <;> rfl
  | key j => rw [Part.value, Channel.get_operators_start, Bool.toNat_false]
  | pitch p => cases p <;> rfl
  | _ => rfl

theorem Control.value_start (control : Control) : control.value {} = 0 := by
  cases control <;> rfl

/-! ## Numbering -/

structure Chip.Numbered (chip : Chip) : Prop where
  channel (c : Fin 6) : (chip.channels.get c).index = UInt8.ofNat c
  operator (c : Fin 6) (j : Fin 4) : ((chip.channels.get c).operators.get j).index = UInt8.ofNat j

theorem Chip.Numbered.write {chip : Chip} (h : chip.Numbered) (port : Port)
    (register value : UInt8) : (chip.write port register value).Numbered := by
  have hsame := chip.numberedAlike_write port register value
  constructor
  · intro c
    rw [hsame.channel, h.channel]
  · intro c j
    rw [hsame.operator, h.operator]

theorem numbered_run (history : List Action) : (run history).Numbered := by
  refine run_induction ⟨?_, ?_⟩ (fun chip port register value h => h.write port register value)
    history
  · intro c
    rw [Chip.get_channels_start]
  · intro c j
    rw [Chip.get_channels_start, Channel.get_operators_start]

end Ym2612
end SoundLog
