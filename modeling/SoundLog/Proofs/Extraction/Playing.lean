import SoundLog.Proofs.Task.Effects
import SoundLog.Proofs.Voice.Recurrence

/-!
# What an extraction plays

Of all that a log holds, an extraction plays only the writes to the chip. The dumps it saves are
those a tracker picks that looks at the voices after each of these writes and once more at the end,
and its plan is to make the directory and to save them one after another.
-/

namespace SoundLog
namespace Extraction

/-! ## Writes -/

def Write.ofOutcome? : Outcome → Option Write
  | .ok (.ym2612Write port register value) => some ⟨port, register, value⟩
  | _ => none

/-- The writes to the chip in some steps. -/
def writes (steps : List Track.Step) : List Write :=
  steps.filterMap fun step => Write.ofOutcome? step.outcome

theorem write_cases (command : Command) :
    (∃ port register value, command = .ym2612Write port register value) ∨
      ∀ port register value, command ≠ .ym2612Write port register value := by
  cases command with
  | ym2612Write port register value => exact Or.inl ⟨port, register, value, rfl⟩
  | _ => exact Or.inr fun _ _ _ => nofun

theorem Write.ofOutcome?_of_other {command : Command}
    (hwrite : ∀ port register value, command ≠ .ym2612Write port register value) :
    Write.ofOutcome? (.ok command) = none := by
  unfold Write.ofOutcome?
  split
  · next houtcome => exact absurd (Except.ok.inj houtcome) (hwrite _ _ _)
  · rfl

theorem writes_append (front back : List Track.Step) :
    writes (front ++ back) = writes front ++ writes back := List.filterMap_append

section

variable {step : Track.Step} {output : String} {dx7 : Bool}

theorem writes_cons_of_none (h : Write.ofOutcome? step.outcome = none) (steps : List Track.Step) :
    writes (step :: steps) = writes steps := List.filterMap_cons_none h

theorem writes_cons_of_some {write : Write} (h : Write.ofOutcome? step.outcome = some write)
    (steps : List Track.Step) : writes (step :: steps) = write :: writes steps :=
  List.filterMap_cons_some h

/-- A step that brings no write is noted, and the player stays as it is. -/
theorem play_cons_of_none (h : Write.ofOutcome? step.outcome = none) (player : Player)
    (steps : List Track.Step) :
    let rest := play output dx7 player steps
    ∃ notes : List Log.Event, play output dx7 player (step :: steps) =
      ⟨notes.map .note ++ rest.actions, rest.dumps⟩ := by
  intro rest
  rw [play]
  cases houtcome : step.outcome with
  | error d =>
    refine ⟨step.events ++ Listing.problemEvents .extraction step d, ?_⟩
    rw [List.map_append]
  | ok command =>
    cases command with
    | ym2612Write port register value =>
      rw [houtcome] at h
      cases h
    | _ => exact ⟨step.events, rfl⟩

/-- A step that brings a write is noted, and the dumps it leads to are saved before all others. -/
theorem play_cons_of_some {write : Write} (h : Write.ofOutcome? step.outcome = some write)
    (player : Player) (steps : List Track.Step) :
    let written := player.write write.port write.register write.value
    let rest := play output dx7 written.2 steps
    ∃ notes : List Log.Event, play output dx7 player (step :: steps) =
      ⟨notes.map .note ++ written.1.flatMap (saveActions output dx7) ++ rest.actions,
        written.1 ++ rest.dumps⟩ := by
  intro written rest
  rw [play]
  cases houtcome : step.outcome with
  | error d =>
    rw [houtcome] at h
    cases h
  | ok command =>
    cases command with
    | ym2612Write port register value =>
      rw [houtcome] at h
      obtain rfl := Option.some.inj h
      refine ⟨step.events ++ player.writeEvents port register value, ?_⟩
      rw [List.map_append]
    | _ =>
      rw [houtcome] at h
      cases h

end

/-! ## Dumps -/

/-- What a tracker picks that looks at a new chip after each of several writes and at the end. -/
def picked (writes : List Write) : List Dump :=
  (Tracker.select ({} : Ym2612.Chip).voices (voicesAfter {} writes)).1.flatten

theorem dumps_start (writes : List Write) : Player.start.dumps writes = picked writes := by
  rw [Player.dumps_eq, picked, Tracker.select, List.flatten_append, List.flatten_singleton]
  rfl

theorem dumps_play (output : String) (dx7 : Bool) (player : Player) (steps : List Track.Step) :
    (play output dx7 player steps).dumps = player.dumps (writes steps) := by
  induction steps generalizing player with
  | nil => rfl
  | cons step steps ih =>
    cases hwrite : Write.ofOutcome? step.outcome with
    | none =>
      obtain ⟨notes, hplay⟩ := play_cons_of_none hwrite player steps
      rw [hplay, writes_cons_of_none hwrite]
      exact ih player
    | some write =>
      obtain ⟨notes, hplay⟩ := play_cons_of_some hwrite player steps
      rw [hplay, writes_cons_of_some hwrite, Player.dumps]
      exact congrArg _ (ih _)

/-! ## Saves -/

def saving (output : String) (dx7 : Bool) (dump : Dump) : Action :=
  .save (filePath output dump) (fileText dx7 dump)

theorem touching_saveActions (output : String) (dx7 : Bool) (dumps : List Dump) :
    (dumps.flatMap (saveActions output dx7)).filter Action.touches =
      dumps.map (saving output dx7) := by
  induction dumps with
  | nil => rfl
  | cons dump dumps ih =>
    rw [List.flatMap_cons, List.filter_append, ih]
    rfl

theorem touching_play (output : String) (dx7 : Bool) (player : Player) (steps : List Track.Step) :
    (play output dx7 player steps).actions.filter Action.touches =
      (player.dumps (writes steps)).map (saving output dx7) := by
  induction steps generalizing player with
  | nil =>
    simp only [play, List.filter_append, Action.filter_touches_notes, List.nil_append,
      touching_saveActions]
    rfl
  | cons step steps ih =>
    cases hwrite : Write.ofOutcome? step.outcome with
    | none =>
      obtain ⟨notes, hplay⟩ := play_cons_of_none hwrite player steps
      rw [hplay, writes_cons_of_none hwrite]
      simp only [List.filter_append, Action.filter_touches_notes, List.nil_append]
      exact ih player
    | some write =>
      obtain ⟨notes, hplay⟩ := play_cons_of_some hwrite player steps
      rw [hplay, writes_cons_of_some hwrite, Player.dumps]
      simp only [List.filter_append, Action.filter_touches_notes, List.nil_append,
        touching_saveActions, List.map_append]
      exact congrArg _ (ih _)

/-- The plan for a log that can be opened. -/
theorem task_of_open {path : Option String} {source : Source} {track : Track}
    (hopen : Track.open path source = .ok track) (output : String) (dx7 : Bool) :
    let planned := task path source output dx7
    let dumps := picked (writes track.steps)
    planned.actions.filter Action.touches =
        .makeDirectory output :: dumps.map (saving output dx7) ∧
      planned.result =
        .ok ⟨dumps.map (filePath output), Listing.problemCount track.steps⟩ := by
  have hdumps := dumps_play output dx7 Player.start track.steps
  have hplay := touching_play output dx7 Player.start track.steps
  rw [dumps_start] at hdumps hplay
  simp [task, hopen, hdumps, hplay, List.filter_cons, Action.touches]

end Extraction
end SoundLog
