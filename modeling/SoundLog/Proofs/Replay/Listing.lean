import Mathlib.Data.List.Basic
import SoundLog.Proofs.Replay.Basic

/-!
# Listings as loops

The loop that lists a log prints a line for every command and notes every problem as it meets them.
It makes the calls that lead to the end of the track, and when it is over, all that the task of the
listing plans has been done.
-/

namespace SoundLog
namespace Listing

/-! ## The loop -/

/-- The lines above the commands have been printed. -/
def start (path : Option String) (source : Source) (track : Track) (volume : Volume) : Replay where
  track
  calls := []
  problems := 0
  record := (Record.idle volume).carryOut
    ((Track.openEvents path source).map .note ++ (preamble track.header).map .print)

/-- Calls the track, and prints the command or notes the problem that it gives. -/
def turn (replay : Replay) : Turn Replay Replay :=
  let start := replay.track.offset
  let step := replay.track.step
  let called := replay.take step
  match step.outcome with
  | .ok .eof => .done called
  | .ok command =>
    let printed := called.act [.print (commandLine start command)]
    if printed.failed then .done printed else .again printed
  | .error d =>
    let noted := called.meet .listing d
    if noted.track.offset = start then .done (noted.giveUp .listing start) else .again noted

def conclude (replay : Replay) : Replay :=
  replay.act [.note
    { level := .info
      origin := .listing
      message := "dump finished"
      fields :=
        [("errors", Log.natValue replay.problems), ("end", Log.natValue replay.track.offset)] }]

/-! ## What a turn does -/

section

variable {replay : Replay} {step : Track.Step}

/-- A step is taken in with all its actions. -/
def take (replay : Replay) (step : Track.Step) : Replay where
  track := step.after
  calls := replay.calls ++ [step]
  problems := replay.problems + problemCount [step]
  record := replay.record.carryOut (stepActions step)

theorem take_of_eof (h : step.outcome = .ok .eof) : take replay step = replay.take step := by
  simp [take, Replay.take, stepActions, problemCount_of_ok h, h]

theorem stepActions_of_command {command : Command} (hne : command ≠ .eof)
    (h : step.outcome = .ok command) :
    stepActions step = step.events.map .note ++ [.print (commandLine step.start command)] := by
  rw [stepActions, h]
  cases command with
  | eof => exact absurd rfl hne
  | _ => rfl

theorem take_of_command {command : Command} (hne : command ≠ .eof)
    (h : step.outcome = .ok command) :
    take replay step = (replay.take step).act [.print (commandLine step.start command)] := by
  simp [take, Replay.take, Replay.act, problemCount_of_ok h, stepActions_of_command hne h,
    Record.carryOut_append]

theorem take_of_problem {d : Diagnostic} (h : step.outcome = .error d) :
    take replay step =
      if step.after.offset = step.before.offset then
        ((replay.take step).meet .listing d).giveUp .listing step.start
      else (replay.take step).meet .listing d := by
  rw [← Replay.act_problemEvents]
  simp [take, Replay.take, Replay.act, stepActions, problemCount_of_error h, h,
    Record.carryOut_append]

end

theorem touches_stepActions (step : Track.Step) :
    ∀ action ∈ stepActions step, action.touches = false := by
  intro action haction
  rw [stepActions, List.mem_append] at haction
  rcases haction with haction | haction
  · exact Action.touches_of_mem_notes _ action haction
  · split at haction
    · cases haction
    · obtain rfl := List.mem_singleton.mp haction
      rfl
    · exact Action.touches_of_mem_notes _ action haction

theorem failed_take (replay : Replay) (step : Track.Step) :
    (take replay step).failed = replay.failed := by
  simp only [Replay.failed, take, Record.trouble_carryOut (touches_stepActions step)]

theorem failed_foldl (replay : Replay) (steps : List Track.Step) :
    (steps.foldl take replay).failed = replay.failed := by
  induction steps generalizing replay with
  | nil => rfl
  | cons step steps ih => rw [List.foldl_cons, ih, failed_take]

theorem followsTrack_turn : FollowsTrack id turn take where
  track_take _ _ := rfl
  turn_eq replay hreplay := by
    have hfailed : (take replay replay.track.step).failed = false :=
      (failed_take _ _).trans hreplay
    simp only [id_eq, hfailed, and_true]
    unfold turn
    simp only
    split
    · next houtcome =>
      have hcontinues := Track.Step.continues_of_ok houtcome
      rw [if_neg (fun hgoes => hcontinues.mp hgoes rfl), take_of_eof houtcome]
    · next command hne houtcome =>
      have hcontinues := Track.Step.continues_of_ok houtcome
      rw [take_of_command hne houtcome] at hfailed ⊢
      rw [if_pos (hcontinues.mpr hne)]
      exact if_neg (Bool.eq_false_iff.mp hfailed)
    · next d houtcome =>
      have hcontinues := Track.Step.continues_of_error houtcome
      rw [take_of_problem houtcome]
      by_cases hstuck : replay.track.step.after.offset = replay.track.step.before.offset
      · rw [if_pos hstuck, if_neg (fun hgoes => hcontinues.mp hgoes hstuck)]
        exact if_pos hstuck
      · rw [if_neg hstuck, if_pos (hcontinues.mpr hstuck)]
        exact if_neg hstuck

theorem calls_turn {replay next : Replay} (h : turn replay = .again next ∨ turn replay = .done next) :
    next.calls = replay.calls ++ [replay.track.step] := by
  unfold turn at h
  simp only at h
  split at h
  · rcases h with h | h
    · cases h
    · cases h
      rfl
  · split at h <;> rcases h with h | h <;> cases h <;> rfl
  · split at h <;> rcases h with h | h <;> cases h <;> rfl

/-! ## The whole loop -/

theorem foldl_take (replay : Replay) (steps : List Track.Step) :
    steps.foldl take replay =
      { track := replay.track.reached steps
        calls := replay.calls ++ steps
        problems := replay.problems + problemCount steps
        record := replay.record.carryOut (steps.flatMap stepActions) } := by
  induction steps generalizing replay with
  | nil => simp [Record.carryOut_nil, problemCount]
  | cons step steps ih =>
    have hproblems := problemCount_append [step] steps
    rw [List.singleton_append] at hproblems
    rw [List.foldl_cons, ih, Track.reached_cons, hproblems]
    simp only [take, List.flatMap_cons, Record.carryOut_append, List.append_assoc,
      List.singleton_append, Nat.add_assoc]

theorem touches_opening (path : Option String) (source : Source) (header : Header) :
    ∀ action ∈ (Track.openEvents path source).map Action.note ++ (preamble header).map .print,
      action.touches = false := by
  rw [List.forall_mem_append]
  exact ⟨Action.touches_of_mem_notes _, Action.touches_of_mem_prints _⟩

theorem touches_task (path : Option String) (source : Source) :
    ∀ action ∈ (task path source).actions, action.touches = false := by
  unfold task
  cases Track.open path source with
  | error d => exact Action.touches_of_mem_notes _
  | ok track =>
    simp only [List.forall_mem_append]
    refine ⟨⟨List.forall_mem_append.mp (touches_opening path source track.header), ?_⟩, ?_⟩
    · intro action haction
      obtain ⟨step, -, haction⟩ := List.mem_flatMap.mp haction
      exact touches_stepActions step action haction
    · exact Action.touches_of_mem_notes [finishedEvent track track.steps]

theorem trouble_task (path : Option String) (source : Source) (volume : Volume) :
    ((task path source).record volume).trouble = none :=
  Record.trouble_carryOut (touches_task path source) (Record.idle volume)

/-- The loop that lists a log makes the calls that lead to the end of the track, and it comes to
what the task plans. -/
theorem exists_runs {path : Option String} {source : Source} {track : Track}
    (hopen : Track.open path source = .ok track) (volume : Volume) :
    ∃ last, Runs turn (start path source track volume) track.steps.length last ∧
      last.calls = track.steps ∧ last.problems = problemCount track.steps ∧
      last.track = track.reached track.steps ∧
      (task path source).record volume = (conclude last).record ∧
      (task path source).outcome volume = (conclude last).outcome last.problems := by
  have hstart : (start path source track volume).failed = false := by
    exact Replay.failed_eq_false
      (Record.trouble_carryOut (touches_opening path source track.header) (Record.idle volume))
  obtain ⟨taken, -, hruns, hall⟩ := followsTrack_turn.exists_runs hstart
  obtain rfl : taken = track.steps := hall ((failed_foldl _ _).trans hstart)
  rw [foldl_take] at hruns
  refine ⟨_, hruns, List.nil_append _, Nat.zero_add _, rfl, ?_⟩
  have hrecord : (task path source).record volume =
      (((start path source track volume).record.carryOut (track.steps.flatMap stepActions)).carryOut
        [.note (finishedEvent track track.steps)]) := by
    rw [start, ← Record.carryOut_append, ← Record.carryOut_append, Record.idle_carryOut]
    simp [Task.record, task, hopen]
  rw [Task.outcome, hrecord]
  simp only [conclude, Replay.act, Replay.outcome, start, Nat.zero_add, finishedEvent, task, hopen]
  refine ⟨rfl, rfl⟩

/-! ## What is printed -/

theorem filterMap_line?_notes (events : List Log.Event) :
    (events.map Action.note).filterMap Action.line? = [] := by
  rw [List.filterMap_map, List.filterMap_eq_nil_iff]
  intro event _
  rfl

theorem filterMap_line?_prints (lines : List String) :
    (lines.map Action.print).filterMap Action.line? = lines := by
  rw [List.filterMap_map]
  exact List.filterMap_some

/-- A command with the place at which it was asked for. -/
structure Item where
  place : Nat
  command : Command

def Item.line (item : Item) : String := commandLine item.place item.command

def Item.ofStep? (step : Track.Step) : Option Item :=
  match step.outcome with
  | .ok .eof => none
  | .ok command => some ⟨step.start, command⟩
  | .error _ => none

def items (steps : List Track.Step) : List Item := steps.filterMap Item.ofStep?

theorem line?_stepActions (step : Track.Step) :
    (stepActions step).filterMap Action.line? = (Item.ofStep? step).toList.map Item.line := by
  obtain ⟨before, outcome, after⟩ := step
  rw [stepActions, List.filterMap_append, filterMap_line?_notes, List.nil_append]
  cases outcome with
  | error d => exact filterMap_line?_notes _
  | ok command => cases command <;> rfl

/-- The lines that are printed of some steps. -/
def stepLines (steps : List Track.Step) : List String :=
  (steps.flatMap stepActions).filterMap Action.line?

theorem stepLines_eq (steps : List Track.Step) : stepLines steps = (items steps).map Item.line := by
  rw [stepLines, List.filterMap_flatMap, items, List.filterMap_eq_flatMap_toList, List.map_flatMap]
  simp only [line?_stepActions]

theorem lines_task {path : Option String} {source : Source} {track : Track}
    (hopen : Track.open path source = .ok track) (volume : Volume) :
    ((task path source).record volume).lines = preamble track.header ++ stepLines track.steps := by
  have hdone : ((task path source).record volume).done = (task path source).actions :=
    Record.done_of_trouble_eq_none (trouble_task path source volume)
  have hlast := filterMap_line?_notes [finishedEvent track track.steps]
  rw [Record.lines, hdone]
  simp only [task, hopen, List.filterMap_append, filterMap_line?_notes, filterMap_line?_prints,
    List.nil_append]
  exact (congrArg _ hlast).trans (List.append_nil _)

end Listing
end SoundLog
