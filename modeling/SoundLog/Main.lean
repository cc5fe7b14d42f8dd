import SoundLog.Program

/-!
# The command line

Carries out the task of a run on the real files and streams.
-/

namespace SoundLog
namespace Main

/-- The number of a refusal, which some calls give negated. -/
def systemNumber (code : UInt32) : Nat := min code.toNat (-code).toNat

def systemError (error : IO.Error) : SystemError :=
  match error with
  | .noFileOrDirectory .. => .notFound
  | .alreadyExists .. => .alreadyExists
  | .inappropriateType _ code _ => if systemNumber code = 20 then .notADirectory else .isADirectory
  | .invalidArgument _ code _ =>
    if systemNumber code = 36 then .nameTooLong else .other (toString error)
  | _ => .other (toString error)

/-- Does something with a path unless the path is refused. -/
def onPath {α : Type} (path : String) (act : IO α) : IO (Except SystemError α) := do
  match Volume.refusal? path with
  | some error => return .error error
  | none =>
    try return .ok (← act)
    catch error => return .error (systemError error)

def entryAt (path : String) : IO (Except SystemError Entry) := do
  match ← onPath path (IO.FS.readBinFile path) with
  | .ok bytes => return .ok (.file bytes.toList)
  | .error .isADirectory => return .ok .directory
  | .error error => return .error error

def find (path : String) : IO (Except SystemError Entry) := do
  if Input.isStandard path then
    let bytes ← (← IO.getStdin).readBinToEnd
    return .ok (.file bytes.toList)
  else entryAt path

def ensureDirectory (path : String) : IO (Except SystemError Unit) := do
  match ← onPath path (IO.FS.createDir path) with
  | .ok () => return .ok ()
  | .error error =>
    match ← entryAt path with
    | .ok .directory => return .ok ()
    | _ => return .error error

/-- Creates a directory unless it is there already, after `makeAbove` if a directory on the way is
missing. -/
def ensureWith (path : String) (makeAbove : IO (Except SystemError Unit)) :
    IO (Except SystemError Unit) := do
  match ← ensureDirectory path with
  | .error .notFound =>
    match ← makeAbove with
    | .ok () => ensureDirectory path
    | .error error => return .error error
  | result => return result

/-- Creates a directory with those above it. Its names are given from the last one on. -/
def ensureTree : List String → IO (Except SystemError Unit)
  | [] => return .ok ()
  | name :: above => ensureWith ("/".intercalate (name :: above).reverse) (ensureTree above)

def makeDirectory (path : String) : IO (Except SystemError Unit) :=
  if path = "" then return .ok ()
  else ensureWith path (ensureTree (Path.parts path).dropLast.reverse)

/-- Whether two paths lead to the same place. -/
def isSamePlace (first second : String) : IO Bool := do
  try return (← IO.FS.realPath first) == (← IO.FS.realPath second)
  catch _ => return false

/-- The name of the input among the files in the directory of the output, if it is one of them. -/
def sharedName? : Job → IO (Option String)
  | .list .. => return none
  | .extract input output .. => do
    if Input.isStandard input then return none
    match Path.fileName? input with
    | none => return none
    | some name =>
      if ← isSamePlace input (Path.join output name) then return some name else return none

def note (filter : Log.Filter) (event : Log.Event) : IO Unit :=
  if filter.passes event then IO.eprintln event.line else pure ()

def perform (filter : Log.Filter) : Action → IO (Option Trouble)
  | .note event => do
    note filter event
    return none
  | .print line => do
    IO.println line
    return none
  | .makeDirectory path => do
    match ← makeDirectory path with
    | .ok () => return none
    | .error error => return some (.makeOutput path error)
  | .save path text => do
    match ← onPath path (IO.FS.writeFile path text) with
    | .ok () => return none
    | .error error => return some (.writeVoice path error)

/-- Carries out actions up to the first one that fails. -/
def performAll (filter : Log.Filter) : List Action → IO (Option Trouble)
  | [] => return none
  | action :: rest => do
    match ← perform filter action with
    | some trouble => return some trouble
    | none => performAll filter rest

def runJob (options : Options) : IO UInt32 := do
  let filter := options.filter (← IO.getEnv "RUST_LOG")
  let task := options.job.task (← find options.job.input) (← sharedName? options.job)
  let outcome : Except Trouble Nat :=
    match ← performAll filter task.actions with
    | some trouble => .error trouble
    | none => task.result
  match outcome with
  | .ok _ => pure ()
  | .error trouble => note filter trouble.event
  return UInt32.ofNat (Program.exitCode outcome)

end Main
end SoundLog

def main (arguments : List String) : IO UInt32 := do
  match SoundLog.Arguments.request arguments with
  | .run options => SoundLog.Main.runJob options
  | .help =>
    SoundLog.Program.helpLines.forM IO.println
    return 0
  | .version =>
    IO.println SoundLog.Program.versionLine
    return 0
  | .invalid =>
    IO.eprintln SoundLog.Program.usageLine
    return 2
