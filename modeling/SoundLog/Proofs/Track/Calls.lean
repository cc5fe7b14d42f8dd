import SoundLog.Proofs.Command.Composition
import SoundLog.Track

/-!
# Calls of a track

What one call gives is told by the decoding of one command. Calls made one after another, over the
end and past problems, each start from the track that the call before has left.
-/

namespace SoundLog
namespace Track

open Command

variable {track : Track}

/-! ## One call -/

section

variable {after : Cursor}

theorem next_of_finished (hfinished : track.finished = true) : track.next = (.ok .eof, track) := by
  unfold next
  exact if_pos hfinished

theorem next_of_ok {command : Command} (hunfinished : track.finished = false)
    (h : decode track.header.hasWideReserved track.cursor = .ok command after) :
    track.next =
      (.ok command, { track with cursor := after, finished := command = .endOfSoundData }) := by
  unfold next
  rw [if_neg (by simp [hunfinished])]
  simp only [h]

theorem next_of_exhausted {problem : Problem} (hunfinished : track.finished = false)
    (h : decode track.header.hasWideReserved track.cursor = .error problem after)
    (hproblem : problem.endsCommands = true) :
    track.next = (.ok .eof, { track with cursor := after, finished := true }) := by
  unfold next
  rw [if_neg (by simp [hunfinished])]
  simp only [h]
  exact if_pos hproblem

theorem next_of_problem {problem : Problem} (hunfinished : track.finished = false)
    (h : decode track.header.hasWideReserved track.cursor = .error problem after)
    (hproblem : ¬ problem.endsCommands = true) :
    track.next = (.error ⟨after.offset, track.path, problem⟩, { track with cursor := after }) := by
  unfold next
  rw [if_neg (by simp [hunfinished])]
  simp only [h]
  exact if_neg hproblem

end

/-- A call goes as far as decoding does, whatever comes of it. -/
theorem cursor_next (hunfinished : track.finished = false) :
    track.next.2.cursor =
      Cursor.ofResult (decode track.header.hasWideReserved track.cursor) := by
  cases hdecode : decode track.header.hasWideReserved track.cursor with
  | ok command after => rw [next_of_ok hunfinished hdecode, Cursor.ofResult_ok]
  | error problem after =>
    by_cases hproblem : problem.endsCommands = true
    · rw [next_of_exhausted hunfinished hdecode hproblem, Cursor.ofResult_error]
    · rw [next_of_problem hunfinished hdecode hproblem, Cursor.ofResult_error]

/-- What a call can come to: behind the end nothing, and else a command, the end, or a problem. -/
inductive Call (track : Track) : Prop
  | behindEnd (hfinished : track.finished = true) (hnext : track.next = (.ok .eof, track))
  | command {command : Command} {after : Cursor} (hfinished : track.finished = false)
    (hdecode : decode track.header.hasWideReserved track.cursor = .ok command after)
    (hne : command ≠ .eof)
    (hnext : track.next =
      (.ok command, { track with cursor := after, finished := command = .endOfSoundData }))
  | exhausted {problem : Problem} {after : Cursor} (hfinished : track.finished = false)
    (hdecode : decode track.header.hasWideReserved track.cursor = .error problem after)
    (hproblem : problem.endsCommands = true)
    (hnext : track.next = (.ok .eof, { track with cursor := after, finished := true }))
  | problem {problem : Problem} {after : Cursor} (hfinished : track.finished = false)
    (hdecode : decode track.header.hasWideReserved track.cursor = .error problem after)
    (hproblem : ¬ problem.endsCommands = true)
    (hnext : track.next =
      (.error ⟨after.offset, track.path, problem⟩, { track with cursor := after }))

theorem call_cases (track : Track) : track.Call := by
  cases hfinished : track.finished with
  | true => exact .behindEnd hfinished (next_of_finished hfinished)
  | false =>
    cases hdecode : decode track.header.hasWideReserved track.cursor with
    | ok command after =>
      exact .command hfinished hdecode (decode_ne_eof hdecode) (next_of_ok hfinished hdecode)
    | error problem after =>
      by_cases hproblem : problem.endsCommands = true
      · exact .exhausted hfinished hdecode hproblem (next_of_exhausted hfinished hdecode hproblem)
      · exact .problem hfinished hdecode hproblem (next_of_problem hfinished hdecode hproblem)

theorem header_next (track : Track) : track.next.2.header = track.header := by
  cases track.call_cases with
  | behindEnd hfinished hnext => rw [hnext]
  | command hfinished hdecode hne hnext => rw [hnext]
  | exhausted hfinished hdecode hproblem hnext => rw [hnext]
  | problem hfinished hdecode hproblem hnext => rw [hnext]

theorem path_next (track : Track) : track.next.2.path = track.path := by
  cases track.call_cases with
  | behindEnd hfinished hnext => rw [hnext]
  | command hfinished hdecode hne hnext => rw [hnext]
  | exhausted hfinished hdecode hproblem hnext => rw [hnext]
  | problem hfinished hdecode hproblem hnext => rw [hnext]

/-- A call leaves a finished track if the track was finished before or the call gives an end. -/
theorem finished_next_iff (track : Track) :
    track.next.2.finished = true ↔
      track.finished = true ∨ track.next.1 = .ok .endOfSoundData ∨ track.next.1 = .ok .eof := by
  cases track.call_cases with
  | behindEnd hfinished hnext => simp [hnext, hfinished]
  | command hfinished hdecode hne hnext => simp [hnext, hfinished, hne]
  | exhausted hfinished hdecode hproblem hnext => simp [hnext]
  | problem hfinished hdecode hproblem hnext => simp [hnext, hfinished]

/-! ## Calls one after another -/

def calls (track : Track) : Nat → List Step
  | 0 => []
  | n + 1 => track.step :: track.step.after.calls n

theorem length_calls (track : Track) (n : Nat) : (track.calls n).length = n := by
  induction n generalizing track with
  | zero => rfl
  | succ n ih => rw [calls, List.length_cons, ih]

def after (track : Track) : Nat → Track
  | 0 => track
  | n + 1 => track.next.2.after n

theorem after_succ (track : Track) (n : Nat) : track.after (n + 1) = (track.after n).next.2 := by
  induction n generalizing track with
  | zero => rfl
  | succ n ih => exact ih track.next.2

theorem after_of_finished (hfinished : track.finished = true) (n : Nat) : track.after n = track := by
  induction n with
  | zero => rfl
  | succ n ih => rw [after, next_of_finished hfinished, ih]

theorem calls_of_finished (hfinished : track.finished = true) (n : Nat) :
    track.calls n = List.replicate n ⟨track, .ok .eof, track⟩ := by
  induction n with
  | zero => rfl
  | succ n ih =>
    have hstep : track.step = ⟨track, .ok .eof, track⟩ := by
      unfold step
      rw [next_of_finished hfinished]
    rw [calls, hstep, ih, List.replicate_succ]

/-! ## Steps to the end -/

namespace Step

variable {step : Step}

theorem continues_of_ok {command : Command} (h : step.outcome = .ok command) :
    step.continues = true ↔ command ≠ .eof := by simp [continues, h]

theorem continues_of_error {d : Diagnostic} (h : step.outcome = .error d) :
    step.continues = true ↔ ¬ step.after.offset = step.before.offset := by
  simp [continues, isStuck, h]

end Step

theorem steps_of_continues (h : track.step.continues = true) :
    track.steps = track.step :: track.step.after.steps := by
  rw [steps, dif_pos h]

theorem steps_of_not_continues (h : ¬ track.step.continues = true) :
    track.steps = [track.step] := by
  rw [steps, dif_neg h]

/-- Induction along the steps of a track. -/
@[elab_as_elim]
theorem steps_induction {motive : Track → Prop}
    (again : ∀ track, track.step.continues = true → motive track.step.after → motive track)
    (last : ∀ track, ¬ track.step.continues = true → motive track) (track : Track) :
    motive track := by
  induction hsize : track.cursor.source.size using Nat.strongRecOn generalizing track with
  | ind size ih =>
    by_cases h : track.step.continues = true
    · exact again track h (ih _ (hsize ▸ size_of_continues h) _ rfl)
    · exact last track h

theorem length_steps_le (track : Track) :
    track.steps.length ≤ track.cursor.source.size + 1 := by
  induction track using steps_induction with
  | again track hcontinues ih =>
    have hsize := size_of_continues hcontinues
    rw [steps_of_continues hcontinues, List.length_cons]
    omega
  | last track hcontinues =>
    rw [steps_of_not_continues hcontinues]
    exact Nat.succ_le_succ (Nat.zero_le _)

end Track
end SoundLog
