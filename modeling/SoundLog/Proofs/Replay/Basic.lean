import SoundLog.Listing
import SoundLog.Proofs.Task.Effects
import SoundLog.Proofs.Track.Calls

/-!
# Replays

A replay calls a track in every turn of a loop, acts on what the call gives and goes on past
problems as long as the track advances. A loop that does so makes the calls that lead to the end of
the track, one a turn, unless one of its actions fails before.
-/

namespace SoundLog

/-! ## Loops -/

inductive Turn (σ ρ : Type)
  | again (state : σ)
  | done (result : ρ)

/-- The loop ends from the state in turn number `n` with the result. -/
inductive Runs {σ ρ : Type} (turn : σ → Turn σ ρ) : σ → Nat → ρ → Prop
  | done {state : σ} {result : ρ} (h : turn state = .done result) : Runs turn state 1 result
  | again {state next : σ} {n : Nat} {result : ρ} (h : turn state = .again next)
    (hrest : Runs turn next n result) : Runs turn state (n + 1) result

section

variable {σ : Type} {turn : σ → Turn σ σ} {state last : σ} {n : Nat}

/-- A loop whose turns add one each to a count adds the number of its turns. -/
theorem Runs.count {count : σ → Nat}
    (hturn : ∀ state next, turn state = .again next ∨ turn state = .done next →
      count next = count state + 1)
    (h : Runs turn state n last) : count last = count state + n := by
  induction h with
  | done h => exact hturn _ _ (Or.inr h)
  | again h hrest ih =>
    have hfirst := hturn _ _ (Or.inl h)
    omega

/-- A turn of a loop that is left before its end at some states. -/
def Turn.leaveAt (leaves : σ → Bool) (turn : σ → Turn σ σ) (state : σ) : Turn σ σ :=
  match turn state with
  | .again next => if leaves next then .done next else .again next
  | .done result => .done result

/-- A loop that is left early ends too, in no more turns. -/
theorem Runs.exists_leaveAt (leaves : σ → Bool) (h : Runs turn state n last) :
    ∃ m other, m ≤ n ∧ Runs (Turn.leaveAt leaves turn) state m other := by
  induction h with
  | @done state last h =>
    refine ⟨1, last, Nat.le_refl 1, .done ?_⟩
    simp only [Turn.leaveAt, h]
  | @again state next n last h hrest ih =>
    by_cases hleaves : leaves next = true
    · refine ⟨1, next, Nat.succ_le_succ (Nat.zero_le n), .done ?_⟩
      simp only [Turn.leaveAt, h, if_pos hleaves]
    · obtain ⟨m, other, hm, hruns⟩ := ih
      refine ⟨m + 1, other, Nat.succ_le_succ hm, .again ?_ hruns⟩
      simp only [Turn.leaveAt, h, if_neg hleaves]

theorem Turn.leaveAt_eq {leaves : σ → Bool} {next : σ}
    (h : leaveAt leaves turn state = .again next ∨ leaveAt leaves turn state = .done next) :
    turn state = .again next ∨ turn state = .done next := by
  unfold leaveAt at h
  cases hturn : turn state with
  | done result =>
    simp only [hturn] at h
    rcases h with h | h
    · cases h
    · exact Or.inr h
  | again next' =>
    simp only [hturn] at h
    by_cases hleaves : leaves next' = true
    · rw [if_pos hleaves] at h
      rcases h with h | h
      · cases h
      · exact Or.inl (congrArg Turn.again (Turn.done.inj h))
    · rw [if_neg hleaves] at h
      rcases h with h | h
      · exact Or.inl h
      · cases h

end

/-! ## States -/

/-- How far the replay of a log has come. -/
structure Replay where
  track : Track
  /-- The calls made so far. -/
  calls : List Track.Step
  /-- The number of problems met so far. -/
  problems : Nat
  record : Record

def alarm (origin : Log.Origin) (message : String) (offset : Nat) : Log.Event :=
  { level := .error, origin, message, fields := [("offset", Log.natValue offset)] }

namespace Replay

/-- Whether an action has failed. -/
def failed (replay : Replay) : Bool := replay.record.trouble.isSome

theorem failed_eq_false {replay : Replay} (h : replay.record.trouble = none) :
    replay.failed = false := by rw [failed, h, Option.isSome_none]

def act (replay : Replay) (actions : List Action) : Replay :=
  { replay with record := replay.record.carryOut actions }

theorem failed_act_notes (replay : Replay) (events : List Log.Event) :
    (replay.act (events.map .note)).failed = replay.failed := by
  simp only [failed, act, Record.trouble_carryOut (Action.touches_of_mem_notes events)]

def take (replay : Replay) (step : Track.Step) : Replay :=
  { replay with
    track := step.after
    calls := replay.calls ++ [step]
    record := replay.record.carryOut (step.events.map .note) }

theorem failed_take (replay : Replay) (step : Track.Step) :
    (replay.take step).failed = replay.failed := failed_act_notes replay step.events

/-- Notes and counts a problem. -/
def meet (origin : Log.Origin) (replay : Replay) (d : Diagnostic) : Replay :=
  { replay.act [.note (alarm origin d.message d.offset)] with problems := replay.problems + 1 }

def giveUp (origin : Log.Origin) (replay : Replay) (start : Nat) : Replay :=
  replay.act [.note (alarm origin "stream did not advance, stopping" start)]

theorem act_problemEvents (origin : Log.Origin) (replay : Replay) (step : Track.Step)
    (d : Diagnostic) :
    { replay.act ((Listing.problemEvents origin step d).map .note) with
        problems := replay.problems + 1 } =
      if step.after.offset = step.before.offset then (replay.meet origin d).giveUp origin step.start
      else replay.meet origin d := by
  by_cases hstuck : step.after.offset = step.before.offset
  · have hevents : (Listing.problemEvents origin step d).map Action.note =
        [.note (alarm origin d.message d.offset)] ++
          [.note (alarm origin "stream did not advance, stopping" step.start)] := by
      simp [Listing.problemEvents, alarm, Track.Step.isStuck, hstuck]
    rw [if_pos hstuck, hevents, act, Record.carryOut_append]
    rfl
  · rw [if_neg hstuck]
    simp [Listing.problemEvents, alarm, Track.Step.isStuck, hstuck, meet]

/-- What comes of a replay that has been brought to its end. -/
def outcome {α : Type} (replay : Replay) (result : α) : Except Trouble α :=
  match replay.record.trouble with
  | some trouble => .error trouble
  | none => .ok result

end Replay

def Track.reached (track : Track) (steps : List Track.Step) : Track :=
  (steps.getLast?.map Track.Step.after).getD track

@[simp] theorem Track.reached_nil (track : Track) : track.reached [] = track := rfl

@[simp] theorem Track.reached_cons (track : Track) (step : Track.Step) (steps : List Track.Step) :
    track.reached (step :: steps) = step.after.reached steps := by
  rw [reached, reached, List.getLast?_cons]
  cases steps.getLast? <;> rfl

section

variable {step : Track.Step}

theorem Listing.problemCount_of_ok {command : Command} (h : step.outcome = .ok command) :
    problemCount [step] = 0 := by simp [problemCount, h, Except.isOk, Except.toBool]

theorem Listing.problemCount_of_error {d : Diagnostic} (h : step.outcome = .error d) :
    problemCount [step] = 1 := by simp [problemCount, h, Except.isOk, Except.toBool]

end

theorem Listing.problemCount_append (front back : List Track.Step) :
    problemCount (front ++ back) = problemCount front + problemCount back := List.countP_append

/-! ## Loops that follow a track -/

/-- The loop makes one call a turn and takes in what it gives. It goes on unless the call is the
last one to be made or an action has failed. -/
structure FollowsTrack {σ : Type} (replay : σ → Replay) (turn : σ → Turn σ σ)
    (take : σ → Track.Step → σ) : Prop where
  track_take : ∀ state step, (replay (take state step)).track = step.after
  turn_eq : ∀ state, (replay state).failed = false →
    turn state =
      let next := take state (replay state).track.step
      if (replay state).track.step.continues = true ∧ (replay next).failed = false then .again next
      else .done next

/-- A loop that follows a track takes in the steps of the track, all of them if no action fails. -/
theorem FollowsTrack.exists_runs {σ : Type} {replay : σ → Replay} {turn : σ → Turn σ σ}
    {take : σ → Track.Step → σ} (h : FollowsTrack replay turn take) {state : σ}
    (hstate : (replay state).failed = false) :
    ∃ taken, taken <+: (replay state).track.steps ∧
      Runs turn state taken.length (taken.foldl take state) ∧
      ((replay (taken.foldl take state)).failed = false → taken = (replay state).track.steps) := by
  generalize htrack : (replay state).track = track
  induction track using Track.steps_induction generalizing state with
  | again track hcontinues ih =>
    have hturn := h.turn_eq state hstate
    rw [htrack] at hturn
    by_cases hfailed : (replay (take state track.step)).failed = false
    · obtain ⟨taken, hprefix, hruns, hall⟩ := ih hfailed (h.track_take state _)
      rw [Track.steps_of_continues hcontinues]
      refine ⟨track.step :: taken, ?_, ?_, ?_⟩
      · exact (List.prefix_cons_inj _).mpr hprefix
      · exact .again (hturn.trans (if_pos ⟨hcontinues, hfailed⟩)) hruns
      · intro hunfailed
        rw [hall hunfailed]
    · rw [Track.steps_of_continues hcontinues]
      refine ⟨[track.step], ?_, ?_, ?_⟩
      · exact (List.prefix_cons_inj _).mpr List.nil_prefix
      · exact .done (hturn.trans (if_neg fun hand => hfailed hand.2))
      · intro hunfailed
        exact absurd hunfailed hfailed
  | last track hcontinues =>
    have hturn := h.turn_eq state hstate
    rw [htrack] at hturn
    rw [Track.steps_of_not_continues hcontinues]
    refine ⟨[track.step], List.prefix_rfl, ?_, fun _ => rfl⟩
    exact .done (hturn.trans (if_neg fun hand => hcontinues hand.1))

end SoundLog
