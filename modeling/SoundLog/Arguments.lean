import SoundLog.Log

/-!
# Arguments

The arguments of the program name a job and its options. They are read from left to right; the first
thing that cannot be understood, or that asks for help or the version, decides.
-/

namespace SoundLog

/-- What the program is asked to do. -/
inductive Job
  | list (input : String) (packed : Bool)
  | extract (input output : String) (packed dx7 : Bool)
  deriving DecidableEq

structure Options where
  level : Log.Level
  job : Job
  deriving DecidableEq

/-- What a list of arguments asks for. -/
inductive Request
  | run (options : Options)
  | help
  | version
  | invalid
  deriving DecidableEq

namespace Arguments

/-- The level unless the arguments choose one. -/
def defaultLevel : Log.Level := .info

/-- Whether an argument is an option; a single hyphen is none. -/
def isOption (argument : String) : Bool := argument.startsWith "-" && argument ≠ "-"

/-- A level by its name, if none has been chosen before. -/
def chooseLevel? (chosen : Option Log.Level) (name : String) : Option Log.Level :=
  if chosen.isSome then none else Log.Level.ofName? name

/-- What follows a text at the start of an argument. -/
def after? (start argument : String) : Option String :=
  if argument.startsWith start then some (argument.drop start.length).toString else none

/-- The two kinds of jobs. -/
inductive Verb
  | list
  | extract
  deriving DecidableEq

def Verb.name : Verb → String
  | list => "dump"
  | extract => "interpret"

def Verb.ofName? (name : String) : Option Verb := [list, extract].find? fun verb => verb.name = name

def helpName : String := "help"

/-- What has been read about a job so far. -/
structure Draft where
  level : Option Log.Level := none
  input : Option String := none
  output : Option String := none
  packed : Bool := false
  dx7 : Bool := false

namespace Draft

/-- Each of these refuses what has been given before. -/
def setLevel? (draft : Draft) (value : String) : Option Draft :=
  (chooseLevel? draft.level value).map fun level => { draft with level := some level }

def setInput? (draft : Draft) (value : String) : Option Draft :=
  if draft.input.isSome ∨ value = "" then none else some { draft with input := some value }

def setOutput? (draft : Draft) (value : String) : Option Draft :=
  if draft.output.isSome ∨ value = "" then none else some { draft with output := some value }

def setPacked? (draft : Draft) : Option Draft :=
  if draft.packed then none else some { draft with packed := true }

def setDx7? (draft : Draft) : Option Draft :=
  if draft.dx7 then none else some { draft with dx7 := true }

/-- The request that a draft amounts to; a level of its own wins over the one given before. -/
def request (draft : Draft) (verb : Verb) (outer : Option Log.Level) : Request :=
  let level := (draft.level.or outer).getD defaultLevel
  match verb, draft.input, draft.output with
  | .list, some input, _ => .run ⟨level, .list input draft.packed⟩
  | .extract, some input, some output =>
    .run ⟨level, .extract input output draft.packed draft.dx7⟩
  | _, _, _ => .invalid

def addInputs? (draft : Draft) : List String → Option Draft
  | [] => some draft
  | value :: rest => (draft.setInput? value).bind (addInputs? · rest)

end Draft

inductive OptionValue
  /-- In the argument itself. -/
  | attached (value : String)
  /-- In the argument that follows. -/
  | following

inductive JobOption
  | level (value : OptionValue)
  | output (value : OptionValue)
  | packed
  | dx7
  | help

def jobOption? (verb : Verb) (argument : String) : Option JobOption :=
  let output : Option JobOption :=
    if argument = "--output" ∨ argument = "-o" then some (.output .following)
    else
      (["--output=", "-o=", "-o"].findSome? (after? · argument)).map (.output <| .attached ·)
  if argument = "--help" ∨ argument.startsWith "-h" then some .help
  else if argument = "--gzip" then some .packed
  else if argument = "--verbose" then some (.level .following)
  else
    match after? "--verbose=" argument with
    | some value => some (.level (.attached value))
    | none =>
      match verb with
      | .list => none
      | .extract => if argument = "--dx7" then some .dx7 else output

def jobRequest (verb : Verb) (outer : Option Log.Level) : Draft → List String → Request
  | draft, [] => draft.request verb outer
  | draft, argument :: rest =>
    let goOn (draft? : Option Draft) : Request :=
      match draft? with
      | some draft => jobRequest verb outer draft rest
      | none => .invalid
    if argument = "--" then
      match draft.addInputs? rest with
      | some draft => draft.request verb outer
      | none => .invalid
    else if isOption argument then
      match jobOption? verb argument, rest with
      | none, _ => .invalid
      | some .help, _ => .help
      | some .packed, _ => goOn draft.setPacked?
      | some .dx7, _ => goOn draft.setDx7?
      | some (.level (.attached value)), _ => goOn (draft.setLevel? value)
      | some (.output (.attached value)), _ => goOn (draft.setOutput? value)
      | some (.level .following), value :: rest =>
        match draft.setLevel? value with
        | some draft => jobRequest verb outer draft rest
        | none => .invalid
      | some (.output .following), value :: rest =>
        match if isOption value then none else draft.setOutput? value with
        | some draft => jobRequest verb outer draft rest
        | none => .invalid
      | some (.level .following), [] => .invalid
      | some (.output .following), [] => .invalid
    else goOn (draft.setInput? argument)

def helpRequest : List String → Request
  | [] => .help
  | [name] => if name = helpName ∨ (Verb.ofName? name).isSome then .help else .invalid
  | _ => .invalid

/-- Reads the arguments in front of the job. -/
def programRequest : Option Log.Level → List String → Request
  | _, [] => .invalid
  | level, argument :: rest =>
    if argument = helpName then helpRequest rest
    else if argument = "--help" ∨ argument.startsWith "-h" then .help
    else if argument = "--version" ∨ argument.startsWith "-V" then .version
    else
      match Verb.ofName? argument, after? "--verbose=" argument with
      | some verb, _ => jobRequest verb level {} rest
      | none, some value =>
        match chooseLevel? level value with
        | some chosen => programRequest (some chosen) rest
        | none => .invalid
      | none, none =>
        match rest with
        | [] => .invalid
        | value :: rest =>
          match if argument = "--verbose" then chooseLevel? level value else none with
          | some chosen => programRequest (some chosen) rest
          | none => .invalid

def request (arguments : List String) : Request := programRequest none arguments

end Arguments
end SoundLog
