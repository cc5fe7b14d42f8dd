import SoundLog.Proofs.Extraction.Playing
import SoundLog.Proofs.Replay.Basic

/-!
# Extractions as loops

The loop that extracts voices plays the writes to the chip as it meets them and saves the dumps that
they lead to. It goes on at once after any other command, and it ends like the loop of a listing, or
when a file cannot be saved. When it is over, the last dumps are saved, and what the task of the
extraction plans has been done.
-/

namespace SoundLog
namespace Extraction

/-! ## The loop -/

def chipAfter (chip : Ym2612.Chip) (writes : List Write) : Ym2612.Chip :=
  writes.foldl (fun chip write => chip.write write.port write.register write.value) chip

/-- The replay of a log with the player that plays it. -/
structure Session where
  replay : Replay
  player : Player
  /-- The paths of the files so far. -/
  written : List String
  /-- The writes played so far. -/
  writes : List Write

/-- The directory has been made and the log been opened. -/
def start (path : Option String) (source : Source) (output : String) (track : Track)
    (volume : Volume) : Session where
  replay :=
    { track
      calls := []
      problems := 0
      record := (Record.idle volume).carryOut
        (.makeDirectory output :: (Track.openEvents path source).map Action.note ++
          (missingClockEvents track.header).map .note) }
  player := .start
  written := []
  writes := []

namespace Session

variable (output : String) (dx7 : Bool)

/-- Plays a write and saves the dumps that it leads to. -/
def play (session : Session) (write : Write) : Session :=
  let played := session.player.write write.port write.register write.value
  { replay := session.replay.act
      ((session.player.writeEvents write.port write.register write.value).map .note
        ++ played.1.flatMap (saveActions output dx7))
    player := played.2
    written := session.written ++ played.1.map (filePath output)
    writes := session.writes ++ [write] }

/-- Calls the track and plays what it gives, if it is a write to the chip. -/
def turn (session : Session) : Turn Session Session :=
  let start := session.replay.track.offset
  let step := session.replay.track.step
  let called := { session with replay := session.replay.take step }
  match step.outcome with
  | .ok .eof => .done called
  | .ok (.ym2612Write port register value) =>
    let played := called.play output dx7 ⟨port, register, value⟩
    if played.replay.failed then .done played else .again played
  | .ok _ => .again called
  | .error d =>
    let noted := called.replay.meet .extraction d
    if noted.track.offset = start then
      .done { called with replay := noted.giveUp .extraction start }
    else .again { called with replay := noted }

def summary (session : Session) : Summary := ⟨session.written, session.replay.problems⟩

/-- Saves the last dumps. -/
def flush (session : Session) : Session :=
  let dumps := session.player.finish
  { session with
    replay := session.replay.act
      (session.player.finishEvents.map .note ++ dumps.flatMap (saveActions output dx7))
    written := session.written ++ dumps.map (filePath output) }

/-- Saves the last dumps and tells how the loop has ended. -/
def conclude (session : Session) : Session :=
  let flushed := session.flush output dx7
  { flushed with replay := flushed.replay.act [.note (finishedEvent flushed.summary)] }

/-! ## What a turn does -/

/-- A step is taken in and played. -/
def take (session : Session) (step : Track.Step) : Session :=
  let called := { session with replay := session.replay.take step }
  match step.outcome with
  | .ok (.ym2612Write port register value) => called.play output dx7 ⟨port, register, value⟩
  | .ok _ => called
  | .error d =>
    { called with
      replay :=
        { called.replay.act ((Listing.problemEvents .extraction step d).map .note) with
          problems := called.replay.problems + 1 } }

variable {output dx7} {session : Session} {step : Track.Step}

theorem take_of_write {port : Ym2612.Port} {register value : UInt8}
    (h : step.outcome = .ok (.ym2612Write port register value)) :
    session.take output dx7 step =
      { session with replay := session.replay.take step }.play output dx7 ⟨port, register, value⟩ := by
  simp only [take, h]

theorem take_of_other {command : Command} (h : step.outcome = .ok command)
    (hwrite : ∀ port register value, command ≠ .ym2612Write port register value) :
    session.take output dx7 step = { session with replay := session.replay.take step } := by
  simp only [take, h]

theorem take_of_problem {d : Diagnostic} (h : step.outcome = .error d) :
    session.take output dx7 step =
      let called := { session with replay := session.replay.take step }
      let noted := called.replay.meet .extraction d
      if step.after.offset = step.before.offset then
        { called with replay := noted.giveUp .extraction step.start }
      else { called with replay := noted } := by
  simp only [take, h, Replay.act_problemEvents]
  split <;> rfl

theorem failed_take_of_none (h : Write.ofOutcome? step.outcome = none) :
    (session.take output dx7 step).replay.failed = session.replay.failed := by
  cases houtcome : step.outcome with
  | error d =>
    simp only [take, houtcome]
    exact (Replay.failed_act_notes _ _).trans (Replay.failed_take _ step)
  | ok command =>
    rcases write_cases command with ⟨port, register, value, rfl⟩ | hwrite
    · rw [houtcome] at h
      cases h
    · rw [take_of_other houtcome hwrite]
      exact Replay.failed_take _ step

theorem followsTrack_turn :
    FollowsTrack Session.replay (turn output dx7) (take output dx7) where
  track_take session step := by
    unfold take
    simp only
    split <;> rfl
  turn_eq session hsession := by
    have hother (h : Write.ofOutcome? session.replay.track.step.outcome = none) :
        (session.take output dx7 session.replay.track.step).replay.failed = false :=
      (failed_take_of_none h).trans hsession
    unfold turn
    simp only
    split
    · next houtcome =>
      have hcontinues := Track.Step.continues_of_ok houtcome
      rw [if_neg (fun hand => hcontinues.mp hand.1 rfl), take_of_other houtcome (by simp)]
    · next port register value houtcome =>
      have hcontinues := Track.Step.continues_of_ok houtcome
      have hgoes := hcontinues.mpr (by simp)
      rw [take_of_write houtcome]
      split
      · next hfailed => rw [if_neg (fun hand => Bool.eq_false_iff.mp hand.2 hfailed)]
      · next hfailed => rw [if_pos ⟨hgoes, Bool.eq_false_iff.mpr hfailed⟩]
    · next command heof hwrite houtcome =>
      have hcontinues := Track.Step.continues_of_ok houtcome
      have hunfailed := hother (by rw [houtcome, Write.ofOutcome?_of_other hwrite])
      rw [if_pos ⟨hcontinues.mpr heof, hunfailed⟩, take_of_other houtcome hwrite]
    · next d houtcome =>
      have hcontinues := Track.Step.continues_of_error houtcome
      have hunfailed := hother (by rw [houtcome]; rfl)
      rw [hunfailed, take_of_problem houtcome]
      simp only
      by_cases hstuck : session.replay.track.step.after.offset =
          session.replay.track.step.before.offset
      · refine (if_pos hstuck).trans ?_
        rw [if_pos hstuck, if_neg (fun hand => hcontinues.mp hand.1 hstuck)]
        rfl
      · refine (if_neg hstuck).trans ?_
        rw [if_neg hstuck, if_pos ⟨hcontinues.mpr hstuck, trivial⟩]

/-! ## The whole loop -/

/-- To take a step in and play the rest does and writes what playing all of it does. -/
theorem play_cons (session : Session) (step : Track.Step) (steps : List Track.Step) :
    let next := session.take output dx7 step
    let whole := Extraction.play output dx7 session.player (step :: steps)
    let rest := Extraction.play output dx7 next.player steps
    session.replay.record.carryOut whole.actions = next.replay.record.carryOut rest.actions ∧
      session.written ++ whole.dumps.map (filePath output) =
        next.written ++ rest.dumps.map (filePath output) := by
  intro next whole rest
  cases houtcome : step.outcome with
  | error d =>
    simp only [next, whole, rest, Extraction.play, take, houtcome, Replay.take, Replay.act,
      Record.carryOut_append, true_and]
  | ok command =>
    rcases write_cases command with ⟨port, register, value, rfl⟩ | hwrite
    · simp only [next, whole, rest, Extraction.play, take, houtcome, play, Replay.take, Replay.act,
        Record.carryOut_append, List.map_append, List.append_assoc, true_and]
    · simp only [next, whole, rest, Extraction.play, take, houtcome, Replay.take,
        Record.carryOut_append, true_and]

theorem play_append (session : Session) (taken steps : List Track.Step) :
    let last := taken.foldl (take output dx7) session
    let whole := Extraction.play output dx7 session.player (taken ++ steps)
    let rest := Extraction.play output dx7 last.player steps
    session.replay.record.carryOut whole.actions = last.replay.record.carryOut rest.actions ∧
      session.written ++ whole.dumps.map (filePath output) =
        last.written ++ rest.dumps.map (filePath output) := by
  induction taken generalizing session with
  | nil => exact ⟨rfl, rfl⟩
  | cons step taken ih =>
    obtain ⟨hrecord, hwritten⟩ := play_cons session step (taken ++ steps)
    obtain ⟨hrecord', hwritten'⟩ := ih (session.take output dx7 step)
    exact ⟨hrecord.trans hrecord', hwritten.trans hwritten'⟩

/-- What has become of a session by some steps. -/
structure Gains (session : Session) (steps : List Track.Step) (last : Session) : Prop where
  track_eq : last.replay.track = session.replay.track.reached steps
  calls_eq : last.replay.calls = session.replay.calls ++ steps
  problems_eq : last.replay.problems = session.replay.problems + Listing.problemCount steps
  writes_eq : last.writes = session.writes ++ Extraction.writes steps
  chip_eq : last.player.chip = chipAfter session.player.chip (Extraction.writes steps)

theorem gains_take (session : Session) (step : Track.Step) :
    session.Gains [step] (session.take output dx7 step) := by
  cases houtcome : step.outcome with
  | error d =>
    have hcount := Listing.problemCount_of_error houtcome
    constructor <;> simp [take, houtcome, hcount, Replay.take, Replay.act, Extraction.writes,
      Write.ofOutcome?, chipAfter]
  | ok command =>
    have hcount := Listing.problemCount_of_ok houtcome
    rcases write_cases command with ⟨port, register, value, rfl⟩ | hwrite
    · rw [take_of_write houtcome]
      constructor <;> simp [houtcome, hcount, play, Player.write, Replay.take, Replay.act,
        Extraction.writes, Write.ofOutcome?, chipAfter]
    · rw [take_of_other houtcome hwrite]
      constructor <;> simp [houtcome, hcount, Replay.take, Extraction.writes,
        Write.ofOutcome?_of_other hwrite, chipAfter]

theorem gains_foldl (session : Session) (steps : List Track.Step) :
    session.Gains steps (steps.foldl (take output dx7) session) := by
  induction steps generalizing session with
  | nil => constructor <;> simp [Listing.problemCount, Extraction.writes, chipAfter]
  | cons step steps ih =>
    have hfirst : session.Gains [step] (session.take output dx7 step) := gains_take session step
    have hrest := ih (session.take output dx7 step)
    have hwrites : Extraction.writes (step :: steps) =
        Extraction.writes [step] ++ Extraction.writes steps := writes_append [step] steps
    have hproblems : Listing.problemCount (step :: steps) =
        Listing.problemCount [step] + Listing.problemCount steps :=
      Listing.problemCount_append [step] steps
    constructor
    · rw [List.foldl_cons, hrest.track_eq, hfirst.track_eq, Track.reached_cons, Track.reached_nil,
        Track.reached_cons]
    · rw [List.foldl_cons, hrest.calls_eq, hfirst.calls_eq, List.append_assoc]
      rfl
    · rw [List.foldl_cons, hrest.problems_eq, hfirst.problems_eq, hproblems, Nat.add_assoc]
    · rw [List.foldl_cons, hrest.writes_eq, hfirst.writes_eq, hwrites, List.append_assoc]
    · rw [List.foldl_cons, hrest.chip_eq, hfirst.chip_eq, hwrites, chipAfter, chipAfter, chipAfter,
        List.foldl_append]

theorem record_of_failed {session : Session} (h : session.replay.failed = true)
    (actions : List Action) : session.replay.record.carryOut actions = session.replay.record :=
  Record.carryOut_of_trouble (Option.isSome_iff_ne_none.mp h) actions

end Session

open Session

variable {path : Option String} {source : Source} {track : Track} {output : String} {dx7 : Bool}

theorem failed_start {volume made : Volume} (hmake : volume.makeDirectory output = .ok made) :
    (start path source output track volume).replay.failed = false := by
  have heffect : (Action.makeDirectory output).effect (Record.idle volume).volume = .ok made :=
    Action.effect_makeDirectory hmake
  have hnotes : ∀ action ∈ (Track.openEvents path source).map Action.note ++
      (missingClockEvents track.header).map .note, action.touches = false := by
    rw [← List.map_append]
    exact Action.touches_of_mem_notes _
  simp only [start, Replay.failed, List.cons_append, Record.carryOut_cons_ok rfl heffect,
    Record.trouble_carryOut hnotes, Option.isSome_none]

/-- The task plays all steps behind the opening of the log and tells how it has ended. -/
theorem record_task (hopen : Track.open path source = .ok track) (output : String) (dx7 : Bool)
    (volume : Volume) :
    let whole := play output dx7 Player.start track.steps
    let summary : Summary :=
      ⟨whole.dumps.map (filePath output), Listing.problemCount track.steps⟩
    (task path source output dx7).result = .ok summary ∧
      (task path source output dx7).record volume =
        ((start path source output track volume).replay.record.carryOut whole.actions).carryOut
          [.note (finishedEvent summary)] := by
  intro whole summary
  constructor
  · simp only [task, hopen, summary, whole]
  · rw [start, ← Record.carryOut_append, ← Record.carryOut_append, Record.idle_carryOut]
    simp [Task.record, task, hopen, summary, whole]

/-- The loop has taken in some of the steps, all of them if no action has failed. What it concludes
with is what the task plans. -/
theorem record_conclude (hopen : Track.open path source = .ok track) {volume : Volume}
    {taken rest : List Track.Step} (hsteps : taken ++ rest = track.steps)
    (hall : (taken.foldl (take output dx7) (start path source output track volume)).replay.failed =
      false → taken = track.steps) :
    let last := taken.foldl (take output dx7) (start path source output track volume)
    let concluded := last.conclude output dx7
    (task path source output dx7).record volume = concluded.replay.record ∧
      (concluded.replay.failed = false →
        (task path source output dx7).result = .ok concluded.summary) := by
  intro last concluded
  obtain ⟨hresult, hrecord⟩ := record_task hopen output dx7 volume
  have hgains : (start path source output track volume).Gains taken last := gains_foldl _ _
  obtain ⟨hactions, hwritten⟩ :
      (start path source output track volume).replay.record.carryOut
          (play output dx7 Player.start track.steps).actions =
        last.replay.record.carryOut (play output dx7 last.player rest).actions ∧
      (play output dx7 Player.start track.steps).dumps.map (filePath output) =
        last.written ++ (play output dx7 last.player rest).dumps.map (filePath output) := by
    rw [← hsteps]
    exact play_append _ taken rest
  by_cases hfailed : last.replay.failed = true
  · have hdone := record_of_failed hfailed
    have hconcluded : concluded.replay.record = last.replay.record := by
      simp only [concluded, conclude, flush, Replay.act, hdone]
    constructor
    · rw [hrecord, hactions, hdone, hdone, hconcluded]
    · intro hunfailed
      rw [Replay.failed, hconcluded] at hunfailed
      exact absurd hfailed (Bool.eq_false_iff.mp hunfailed)
  · have htaken : taken = track.steps := hall (Bool.eq_false_iff.mpr hfailed)
    obtain rfl : rest = [] := List.append_right_eq_self.mp (hsteps.trans htaken.symm)
    have hsummary : concluded.summary =
        ⟨(play output dx7 Player.start track.steps).dumps.map (filePath output),
          Listing.problemCount track.steps⟩ := by
      have hproblems : last.replay.problems = Listing.problemCount track.steps := by
        rw [hgains.problems_eq, htaken]
        exact Nat.zero_add _
      rw [hwritten, ← hproblems]
      rfl
    constructor
    · rw [hrecord, hactions, ← hsummary]
      rfl
    · intro hunfailed
      rw [hresult, hsummary]

/-- Once the directory has been made, the loop that extracts the voices of a log comes to what the
task plans. It makes the calls that lead to the end of the track, unless a file cannot be saved. -/
theorem exists_runs (hopen : Track.open path source = .ok track) {volume : Volume}
    (hstart : (start path source output track volume).replay.failed = false) :
    ∃ taken last, taken <+: track.steps ∧
      Runs (turn output dx7) (start path source output track volume) taken.length last ∧
      (start path source output track volume).Gains taken last ∧
      (last.replay.failed = false → taken = track.steps) ∧
      (task path source output dx7).record volume = (last.conclude output dx7).replay.record ∧
      (task path source output dx7).outcome volume =
        (last.conclude output dx7).replay.outcome (last.conclude output dx7).summary := by
  have hfollows : FollowsTrack Session.replay (turn output dx7) (take output dx7) :=
    followsTrack_turn
  obtain ⟨taken, hprefix, hruns, hall⟩ := hfollows.exists_runs hstart
  obtain ⟨rest, hsteps⟩ := hprefix
  obtain ⟨hrecord, hresult⟩ := record_conclude hopen hsteps hall
  refine ⟨taken, _, ⟨rest, hsteps⟩, hruns, gains_foldl _ _, hall, hrecord, ?_⟩
  rw [Task.outcome, hrecord]
  cases htrouble : (conclude output dx7 (taken.foldl (take output dx7)
      (start path source output track volume))).replay.record.trouble with
  | some trouble => simp only [Replay.outcome, htrouble]
  | none =>
    simp only [Replay.outcome, htrouble]
    exact hresult (Replay.failed_eq_false htrouble)

theorem exists_whole_runs (hopen : Track.open path source = .ok track) {volume : Volume}
    (hwrites : ((task path source output dx7).record volume).trouble = none) :
    ∃ last, Runs (turn output dx7) (start path source output track volume) track.steps.length last ∧
      (start path source output track volume).Gains track.steps last ∧
      (task path source output dx7).record volume = (last.conclude output dx7).replay.record ∧
      (task path source output dx7).outcome volume = .ok (last.conclude output dx7).summary := by
  have hstart : (start path source output track volume).replay.failed = false := by
    rw [(record_task hopen output dx7 volume).2] at hwrites
    exact Replay.failed_eq_false (Record.trouble_of_carryOut (Record.trouble_of_carryOut hwrites))
  obtain ⟨taken, last, -, hruns, hgains, hall, hrecord, houtcome⟩ := exists_runs hopen hstart
  have hlast : last.replay.failed = false := by
    rw [hrecord] at hwrites
    exact Replay.failed_eq_false (Record.trouble_of_carryOut (Record.trouble_of_carryOut hwrites))
  obtain rfl := hall hlast
  rw [hrecord] at hwrites
  simp only [Replay.outcome, hwrites] at houtcome
  exact ⟨last, hruns, hgains, hrecord, houtcome⟩

end Extraction
end SoundLog
