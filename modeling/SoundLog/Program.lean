import SoundLog.Arguments
import SoundLog.Extraction
import SoundLog.Input

/-!
# The program

A run of the program is a task that opens the input and does the job with it. Output lines, events
that pass the filter, files and an exit code are all that can be seen of it.
-/

namespace SoundLog
namespace Program

def versionLine : String := "vgmscope 0.1.0"

def helpLines : List String :=
  [ "Dump and interpret VGM sound logs",
    "",
    "Usage: vgmscope [OPTIONS] <COMMAND>",
    "",
    "Commands:",
    "  dump FILE [--gzip]                       Print the header and every command with its offset",
    "  interpret FILE -o DIR [--gzip] [--dx7]   Write every voice to a file of its own",
    "  help [COMMAND]                           Print this help",
    "",
    "Options:",
    "  --verbose LEVEL   trace, debug, info, warn or error; RUST_LOG takes precedence",
    "  -h, --help        Print this help",
    "  -V, --version     Print the version" ]

def usageLine : String := "error: invalid arguments; for more information, try --help"

end Program

def Job.input : Job → String
  | list input _ => input
  | extract input .. => input

/-- What reading the input of an extraction brings. If it is in the directory of the output, under
the name `shared?`, it may be overwritten on the way. -/
def extractionSource (path : Option String) (opened : Input.Opened) (dx7 : Bool)
    (shared? : Option String) : Source :=
  let source := Track.settle path opened.supply
  match shared?.bind (Extraction.earlyFile? source dx7) with
  | none => source
  | some file =>
    Track.settle path (opened.supplyOverwritten file.taken file.text.toUTF8.toList)

/-- Does a job with what was found at the path of its input; the result is the number of
problems. -/
def Job.task (found : Except SystemError Entry) (shared? : Option String) : Job → Task Nat
  | list input packed =>
    let path := Input.sourcePath? input
    (Input.task input packed found).andThen fun opened =>
      Listing.task path (Track.settle path opened.supply)
  | extract input output packed dx7 =>
    let path := Input.sourcePath? input
    let report := (Input.task input packed found).andThen fun opened =>
      Extraction.task path (extractionSource path opened dx7 shared?) output dx7
    { actions := report.actions, result := report.result.map Extraction.Summary.problems }

/-- The filter for events; a readable setting of the environment wins over the arguments. -/
def Options.filter (options : Options) (setting : Option String) : Log.Filter :=
  (setting.bind Log.Filter.ofText?).getD ⟨some options.level⟩

def Trouble.event (trouble : Trouble) : Log.Event :=
  { level := .error, origin := .program, message := trouble.text }

namespace Program

structure Environment where
  volume : Volume
  standardInput : List UInt8 := []
  /-- The setting of the log filter. -/
  logSetting : Option String := none

structure Finish where
  exitCode : Nat
  output : List String := []
  errorOutput : List String := []
  volume : Volume

/-- The exit code for the number of problems of a run. -/
def exitCode (outcome : Except Trouble Nat) : Nat :=
  match outcome with
  | .ok 0 => 0
  | _ => 1

def find (environment : Environment) (path : String) : Except SystemError Entry :=
  if Input.isStandard path then .ok (.file environment.standardInput)
  else environment.volume.find path

/-- The name of the input among the files in the directory of the output, if it is one of them. -/
def sharedName? (volume : Volume) : Job → Option String
  | .list .. => none
  | .extract input output .. =>
    if Input.isStandard input then none
    else
      let made := (volume.makeDirectory output).toOption.getD volume
      match volume.resolve input, made.resolve output with
      | .ok place, .ok directory => if place.dropLast = directory then place.getLast? else none
      | _, _ => none

def runJob (options : Options) (environment : Environment) : Finish :=
  let filter := options.filter environment.logSetting
  let task :=
    options.job.task (find environment options.job.input)
      (sharedName? environment.volume options.job)
  let record := task.record environment.volume
  let outcome := task.outcome environment.volume
  let last :=
    match outcome with
    | .ok _ => []
    | .error trouble => [trouble.event]
  { exitCode := exitCode outcome
    output := record.lines
    errorOutput := ((record.events ++ last).filter filter.passes).map Log.Event.line
    volume := record.volume }

def run (arguments : List String) (environment : Environment) : Finish :=
  let volume := environment.volume
  match Arguments.request arguments with
  | .run options => runJob options environment
  | .help => { exitCode := 0, output := helpLines, volume }
  | .version => { exitCode := 0, output := [versionLine], volume }
  | .invalid => { exitCode := 2, errorOutput := [usageLine], volume }

end Program
end SoundLog
