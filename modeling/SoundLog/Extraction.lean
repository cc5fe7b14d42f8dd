import SoundLog.Listing
import SoundLog.Voice.Dx7
import SoundLog.Voice.Tracker
import SoundLog.Ym2612.Events

/-!
# Extracting voices

The YM2612 writes of a log are played into a chip, and every voice that a tracker picks on the way
or at the end becomes a file of its own, named after its channel and number. Problems are noted and
counted like those of a listing, and the last voices are kept whatever ended the log.
-/

namespace SoundLog
namespace Extraction

/-! ## Files -/

/-- The name of the file for a dump, without the ending. -/
def stem (dump : Dump) : String :=
  "ch" ++ Numeral.paddedDecimal 2 dump.channel ++ "-" ++ Numeral.paddedDecimal 4 dump.sequence

def fileName (dump : Dump) : String := stem dump ++ ".txt"

/-- The contents of the file for a dump, with a DX7 voice if one is asked for. -/
def fileText (dx7 : Bool) (dump : Dump) : String :=
  dump.voice.text ++ if dx7 then (Dx7.Voice.ofVoice (stem dump) dump.voice).text else ""

def filePath (output : String) (dump : Dump) : String := Path.join output (fileName dump)

private def event (level : Log.Level) (message : String) (fields : List (String × String)) :
    Log.Event :=
  { level, origin := .extraction, message, fields }

def saveActions (output : String) (dx7 : Bool) (dump : Dump) : List Action :=
  let path := filePath output dump
  [.save path (fileText dx7 dump), .note (event .info "wrote snapshot" [("path", path)])]

/-! ## Playing -/

/-- The chip and the tracker that watches it. -/
structure Player where
  chip : Ym2612.Chip
  tracker : Tracker

namespace Player

def start : Player :=
  let chip : Ym2612.Chip := {}
  ⟨chip, Tracker.start chip.voices⟩

/-- Plays one write; the dumps it leads to come first. -/
def write (player : Player) (port : Ym2612.Port) (register value : UInt8) : List Dump × Player :=
  let chip := player.chip.write port register value
  let observed := player.tracker.observe chip.voices
  (observed.1, ⟨chip, observed.2⟩)

def writeEvents (player : Player) (port : Ym2612.Port) (register value : UInt8) : List Log.Event :=
  player.chip.writeEvents port register value ++
    player.tracker.observeEvents (player.chip.write port register value).voices

def finish (player : Player) : List Dump := (player.tracker.finish player.chip.voices).1

def finishEvents (player : Player) : List Log.Event :=
  player.tracker.finishEvents player.chip.voices

end Player

/-- The dumps and the rest of what happens in playing some steps. -/
structure Playing where
  actions : List Action
  dumps : List Dump

def play (output : String) (dx7 : Bool) : Player → List Track.Step → Playing
  | player, [] =>
    let dumps := player.finish
    ⟨player.finishEvents.map .note ++ dumps.flatMap (saveActions output dx7), dumps⟩
  | player, step :: steps =>
    let stepEvents := step.events.map Action.note
    match step.outcome with
    | .ok (.ym2612Write port register value) =>
      let written := player.write port register value
      let rest := play output dx7 written.2 steps
      ⟨stepEvents ++ (player.writeEvents port register value).map .note
          ++ written.1.flatMap (saveActions output dx7) ++ rest.actions,
        written.1 ++ rest.dumps⟩
    | .ok _ =>
      let rest := play output dx7 player steps
      ⟨stepEvents ++ rest.actions, rest.dumps⟩
    | .error d =>
      let rest := play output dx7 player steps
      ⟨stepEvents ++ (Listing.problemEvents .extraction step d).map .note ++ rest.actions,
        rest.dumps⟩

/-! ## Files on the way -/

/-- A file that is written before the end of the log, when `taken` bytes of the log have been
taken. -/
structure EarlyFile where
  taken : Nat
  text : String

/-- The dumps before the end, each with the number of bytes taken. -/
def earlyDumps : Player → List Track.Step → List (Nat × Dump)
  | _, [] => []
  | player, step :: steps =>
    match step.outcome with
    | .ok (.ym2612Write port register value) =>
      let written := player.write port register value
      written.1.map (fun dump => (step.after.offset, dump)) ++ earlyDumps written.2 steps
    | _ => earlyDumps player steps

def earlyFile? (source : Source) (dx7 : Bool) (name : String) : Option EarlyFile :=
  match Track.open none source with
  | .error _ => none
  | .ok track =>
    ((earlyDumps Player.start track.steps).find? fun item => fileName item.2 = name).map
      fun item => ⟨item.1, fileText dx7 item.2⟩

/-! ## The task -/

/-- What an extraction has done. -/
structure Summary where
  /-- The paths of the files, in the order of writing. -/
  written : List String
  /-- The number of problems met. -/
  problems : Nat
  deriving DecidableEq

def missingClockEvents (header : Header) : List Log.Event :=
  match header.ym2612Clock with
  | none => [event .warn "header declares no YM2612 clock" []]
  | some _ => []

def finishedEvent (summary : Summary) : Log.Event :=
  event .info "interpret finished"
    [("files", Log.natValue summary.written.length), ("errors", Log.natValue summary.problems)]

/-- Writes the voices of a log into a directory. -/
def task (path : Option String) (source : Source) (output : String) (dx7 : Bool) : Task Summary :=
  let opening := .makeDirectory output :: (Track.openEvents path source).map Action.note
  match Track.open path source with
  | .error d => { actions := opening, result := .error (.header d) }
  | .ok track =>
    let steps := track.steps
    let playing := play output dx7 Player.start steps
    let summary := ⟨playing.dumps.map (filePath output), Listing.problemCount steps⟩
    { actions :=
        opening ++ (missingClockEvents track.header).map .note ++ playing.actions
          ++ [.note (finishedEvent summary)]
      result := .ok summary }

end Extraction
end SoundLog
