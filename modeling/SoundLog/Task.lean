import SoundLog.Diagnostic
import SoundLog.Log
import SoundLog.Volume.Basic

/-!
# Tasks

A task is a plan: the actions to take in order, and what comes of them. Nothing that an action does
has a part in what is planned after it, except that one that fails ends the task. So a task is a
list, and carrying it out on a volume takes a first part of it.
-/

namespace SoundLog

inductive Action
  | note (event : Log.Event)
  /-- Writes a line of output. -/
  | print (line : String)
  | makeDirectory (path : String)
  /-- Writes the text of a voice to a file. -/
  | save (path : String) (text : String)
  deriving DecidableEq

inductive Trouble
  | openInput (path : String) (error : SystemError)
  | readInput (path : String) (error : SystemError)
  | makeOutput (path : String) (error : SystemError)
  | writeVoice (path : String) (error : SystemError)
  | header (diagnostic : Diagnostic)
  deriving DecidableEq

namespace Trouble

/-- What went wrong and the reasons behind it, the outermost first. -/
def chain : Trouble → List String
  | openInput path error => ["failed to open input file: " ++ path, error.message]
  | readInput path error => ["failed to read input: " ++ path, error.message]
  | makeOutput path error => ["failed to create output directory: " ++ path, error.message]
  | writeVoice path error => ["failed to write snapshot: " ++ path, error.message]
  | header diagnostic =>
    ["failed to parse VGM header", diagnostic.locatedText, diagnostic.text]
      ++ diagnostic.causeText.toList

def text (trouble : Trouble) : String := ": ".intercalate trouble.chain

end Trouble

structure Task (α : Type) where
  actions : List Action := []
  result : Except Trouble α

namespace Task

def andThen {α β : Type} (task : Task α) (next : α → Task β) : Task β :=
  match task.result with
  | .error trouble => { actions := task.actions, result := .error trouble }
  | .ok a => { actions := task.actions ++ (next a).actions, result := (next a).result }

end Task

namespace Action

def effect (volume : Volume) : Action → Except Trouble Volume
  | note _ => .ok volume
  | print _ => .ok volume
  | makeDirectory path => (volume.makeDirectory path).mapError (.makeOutput path)
  | save path text => (volume.write path text.toUTF8.toList).mapError (.writeVoice path)

def event? : Action → Option Log.Event
  | note event => some event
  | _ => none

def line? : Action → Option String
  | print line => some line
  | _ => none

end Action

/-- What has come of carrying out some actions. -/
structure Record where
  /-- The actions that were carried out. -/
  done : List Action
  volume : Volume
  /-- What the first action that failed met with. -/
  trouble : Option Trouble

namespace Record

def events (record : Record) : List Log.Event := record.done.filterMap Action.event?

def lines (record : Record) : List String := record.done.filterMap Action.line?

/-- Carries out actions up to the first one that fails. -/
def ofActions : List Action → Volume → Record
  | [], volume => ⟨[], volume, none⟩
  | action :: rest, volume =>
    match action.effect volume with
    | .error trouble => ⟨[], volume, some trouble⟩
    | .ok changed =>
      let record := ofActions rest changed
      { record with done := action :: record.done }

end Record

namespace Task

variable {α : Type}

def record (task : Task α) (volume : Volume) : Record := Record.ofActions task.actions volume

def outcome (task : Task α) (volume : Volume) : Except Trouble α :=
  match (task.record volume).trouble with
  | some trouble => .error trouble
  | none => task.result

end Task
end SoundLog
