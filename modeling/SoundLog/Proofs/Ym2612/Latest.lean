import Mathlib.Data.List.Infix
import SoundLog.Proofs.Ym2612.History

/-!
# The latest write of a history

What a part of the chip holds has come from the latest of the writes that are selected for it. A
selection may look at what was done before a write, for what a write reaches can depend on the mode
that the chip is in by then. A reset undoes all writes before it.
-/

namespace SoundLog
namespace Ym2612

/-- Some writes, told by what was done before them and by their port, register and value. -/
abbrev Selection := List Action → Port → (register value : UInt8) → Bool

def writesTo (port : Port) (register : UInt8) : Selection := fun _ port' register' _ =>
  port' = port ∧ register' = register

/-- The actions of a history, each with what was done before it. -/
def moments (history : List Action) : List (List Action × Action) := history.inits.zip history

/-- Whether the action is a write that is selected, or a reset. -/
def Selection.decides (selection : Selection) (moment : List Action × Action) : Bool :=
  match moment.2 with
  | .write port register value => selection moment.1 (Port.ofByte port) register value
  | .reset => true

def Action.written? : Action → Option UInt8
  | write _ _ value => some value
  | reset => none

/-- The value of the latest selected write, if there is one since the last reset. -/
def latest? (selection : Selection) (history : List Action) : Option UInt8 :=
  ((moments history).filter selection.decides).getLast?.bind fun moment => moment.2.written?

theorem moments_snoc (history : List Action) (action : Action) :
    moments (history ++ [action]) = moments history ++ [(history, action)] := by
  induction history with
  | nil => rfl
  | cons first later ih =>
    have hcons : ∀ rest, moments (first :: rest) =
        ([], first) :: (moments rest).map (Prod.map (first :: ·) id) := by
      intro rest
      rw [moments, List.inits_cons, List.zip_cons_cons, List.zip_map_left, moments]
    rw [List.cons_append, hcons, hcons, ih, List.map_append, List.cons_append]
    rfl

variable (selection : Selection) (history : List Action)

theorem latest?_nil : latest? selection [] = none := rfl

theorem latest?_write (port register value : UInt8) :
    latest? selection (history ++ [.write port register value]) =
      if selection history (Port.ofByte port) register value then some value
      else latest? selection history := by
  rw [latest?, moments_snoc, List.filter_append]
  by_cases h : selection history (Port.ofByte port) register value = true
  · have hdecides : selection.decides (history, .write port register value) = true := h
    rw [if_pos h, List.filter_cons_of_pos hdecides, List.filter_nil, List.getLast?_concat]
    rfl
  · have hdecides : ¬ selection.decides (history, .write port register value) = true := h
    rw [if_neg h, List.filter_cons_of_neg hdecides, List.filter_nil, List.append_nil, latest?]

theorem latest?_reset : latest? selection (history ++ [.reset]) = none := by
  rw [latest?, moments_snoc, List.filter_append, List.filter_cons_of_pos rfl, List.filter_nil,
    List.getLast?_concat]
  rfl

variable {selection} in
theorem latest?_eq_none (h : ∀ before port register value,
    selection before port register value = false) : latest? selection history = none := by
  induction history using List.reverseRecOn with
  | nil => exact latest?_nil selection
  | append_singleton history action ih =>
    cases action with
    | write port register value => rw [latest?_write, h, if_neg Bool.false_ne_true, ih]
    | reset => exact latest?_reset selection history

/-- A part of a channel keeps its bits of the latest write that was routed to its group. -/
theorem part_run (c : Fin 6) (part : Part) :
    part.value ((run history).channels.get c) =
      part.span.read ((latest? (fun before port register value =>
        route (run before).specialMode port value (Target.ofRegister register) =
          some (c, part.group)) history).getD 0) := by
  induction history using List.reverseRecOn with
  | nil =>
    rw [latest?_nil, Option.getD_none, Span.read_zero]
    exact part.value_start c
  | append_singleton history action ih =>
    rw [run_snoc]
    cases action with
    | write port register value =>
      rw [Action.perform, Chip.part_write, latest?_write, ih]
      simp only [decide_eq_true_eq]
      split <;> rfl
    | reset =>
      rw [latest?_reset, Option.getD_none, Span.read_zero]
      exact part.value_start c

end Ym2612
end SoundLog
