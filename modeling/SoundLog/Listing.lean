import SoundLog.Task
import SoundLog.Track

/-!
# Listings

A listing shows a log: a table of the header, then one line for every command with the place at
which it was asked for. Problems are noted and counted, and the listing goes on as long as the track
advances.

How the table is laid out is the business of a library for printing tables. `padRight` and `table`
stand in for it, with as much of its layout as two columns without borders need. No theorem depends
on the layout.
-/

namespace SoundLog
namespace Listing

/-! ## The table -/

private def offsetText (n : Nat) : String := "0x" ++ Numeral.paddedUpperHex 8 n

private def clockText (clock : Option UInt32) : String :=
  match clock with
  | some hertz => Numeral.decimal hertz.toNat ++ " Hz"
  | none => "(unused)"

private def placeText (place : Option Nat) : String :=
  match place with
  | some n => offsetText n
  | none => "(none)"

def rows (header : Header) : List (String × String) :=
  [ ("version", header.versionText ++ " (" ++ offsetText header.version.toNat ++ ")"),
    ("eof_offset", offsetText header.eofOffset),
    ("gd3_offset", placeText header.gd3Offset),
    ("data_offset", offsetText header.dataOffset),
    ("total_samples",
      Numeral.decimal header.sampleCount.toNat ++ " ("
        ++ Numeral.thousandths header.durationMilliseconds ++ " s @ 44100Hz)"),
    ("loop_offset", placeText header.loopOffset),
    ("loop_samples",
      match header.loopSampleCount with
      | some n => Numeral.decimal n.toNat
      | none => "(none)"),
    ("rate", Numeral.decimal header.rate.toNat),
    ("sn76489_clock", clockText header.sn76489Clock),
    ("sn76489_lfsr",
      "feedback=0x" ++ Numeral.paddedUpperHex 4 header.sn76489Feedback.toNat
        ++ " width=" ++ Numeral.decimal header.sn76489Width.toNat
        ++ " flags=0x" ++ Numeral.paddedUpperHex 2 header.sn76489Flags.toNat),
    ("ym2413_clock", clockText header.ym2413Clock),
    ("ym2612_clock", clockText header.ym2612Clock),
    ("ym2151_clock", clockText header.ym2151Clock),
    ("sega_pcm_clock", clockText header.segaPcmClock),
    ("sega_pcm_interface", offsetText header.segaPcmInterface.toNat) ]

/-- Spaces behind a text until it is `width` characters long. -/
def padRight (width : Nat) (text : String) : String :=
  text ++ String.ofList (List.replicate (width - text.length) ' ')

/-- The lines of a table with two columns, each as wide as its longest cell. -/
def table (rows : List (String × String)) : List String :=
  let width (cell : String × String → String) : Nat :=
    rows.foldl (fun widest row => max widest (cell row).length) 0
  rows.map fun row =>
    " " ++ padRight (width Prod.fst) row.1 ++ "  " ++ padRight (width Prod.snd) row.2 ++ " "

def preamble (header : Header) : List String :=
  table (("Field", "Value") :: rows header) ++
    ["", padRight 10 "Offset" ++ " Command", String.ofList (List.replicate 72 '-')]

/-! ## The commands -/

def commandLine (start : Nat) (command : Command) : String :=
  offsetText start ++ " " ++ command.text

def problemEvents (origin : Log.Origin) (step : Track.Step) (d : Diagnostic) : List Log.Event :=
  let event (message : String) (offset : Nat) : Log.Event :=
    { level := .error, origin, message, fields := [("offset", Log.natValue offset)] }
  event d.message d.offset ::
    if step.isStuck then [event "stream did not advance, stopping" step.start] else []

def stepActions (step : Track.Step) : List Action :=
  step.events.map .note ++
    match step.outcome with
    | .ok .eof => []
    | .ok command => [.print (commandLine step.start command)]
    | .error d => (problemEvents .listing step d).map .note

def problemCount (steps : List Track.Step) : Nat :=
  steps.countP fun step => !step.outcome.isOk

/-- The place reached by some steps of a track. -/
def endOffset (track : Track) (steps : List Track.Step) : Nat :=
  ((steps.getLast?.map Track.Step.after).getD track).offset

def finishedEvent (track : Track) (steps : List Track.Step) : Log.Event :=
  { level := .info
    origin := .listing
    message := "dump finished"
    fields :=
      [("errors", Log.natValue (problemCount steps)),
        ("end", Log.natValue (endOffset track steps))] }

/-- Lists a log; the result is the number of problems. -/
def task (path : Option String) (source : Source) : Task Nat :=
  let opening := (Track.openEvents path source).map Action.note
  match Track.open path source with
  | .error d => { actions := opening, result := .error (.header d) }
  | .ok track =>
    let steps := track.steps
    { actions :=
        opening ++ (preamble track.header).map .print ++ steps.flatMap stepActions
          ++ [.note (finishedEvent track steps)]
      result := .ok (problemCount steps) }

end Listing
end SoundLog
