import SoundLog.Text.Numeral

/-!
# Log events

What the library has to tell about its work is a value: an event with a severity, the place it
comes from, a message and named values. A filter keeps the events that are severe enough.
-/

namespace SoundLog
namespace Log

/-- Severities, the most severe first. -/
inductive Level
  | error
  | warn
  | info
  | debug
  | trace
  deriving DecidableEq

namespace Level

def verbosity : Level → Nat
  | error => 1
  | warn => 2
  | info => 3
  | debug => 4
  | trace => 5

def name : Level → String
  | error => "error"
  | warn => "warn"
  | info => "info"
  | debug => "debug"
  | trace => "trace"

/-- The severity as it is printed in front of an event. -/
def label : Level → String
  | error => "ERROR"
  | warn => "WARN"
  | info => "INFO"
  | debug => "DEBUG"
  | trace => "TRACE"

def all : List Level := [error, warn, info, debug, trace]

def ofName? (text : String) : Option Level := all.find? fun level => level.name = text

end Level

/-- The part of the program an event comes from. -/
inductive Origin
  | parser
  | chip
  | channel
  | preset
  | listing
  | extraction
  | input
  | program
  deriving DecidableEq

def Origin.target : Origin → String
  | parser => "vgmscope::vgm::parser"
  | chip => "vgmscope::chip::state::ym2612"
  | channel => "vgmscope::chip::state::channel"
  | preset => "vgmscope::chip::state::preset"
  | listing => "vgmscope::cui::dump"
  | extraction => "vgmscope::cui::interpret"
  | input => "vgmscope::input"
  | program => "vgmscope"

structure Event where
  level : Level
  origin : Origin
  message : String
  /-- Named values, in the order they are printed. -/
  fields : List (String × String) := []
  deriving DecidableEq

namespace Event

/-- The message followed by ` name=value` for every field. -/
def body (event : Event) : String :=
  event.fields.foldl (fun text field => text ++ " " ++ field.1 ++ "=" ++ field.2) event.message

def text (event : Event) : String := event.level.label ++ " " ++ event.body

/-- A character of a message on the error stream. Characters that can steer a terminal stand as
their numbers. -/
def shownCharacter (c : Char) : String :=
  let code := c.toNat
  if [0x07, 0x08, 0x0c, 0x1b, 0x7f].contains code then "\\x" ++ Numeral.paddedHex 2 code
  else if 0x80 ≤ code ∧ code ≤ 0x9f then "\\u\x7b" ++ Numeral.hex code ++ "\x7d"
  else c.toString

def shownMessage (message : String) : String := String.join (message.toList.map shownCharacter)

/-- The event with its target, as it is written to the error stream. -/
def line (event : Event) : String :=
  let shown := { event with message := shownMessage event.message }
  event.level.label ++ " " ++ event.origin.target ++ ": " ++ shown.body

end Event

/-- The least severe level that passes; without one nothing does. -/
structure Filter where
  threshold : Option Level

namespace Filter

def passes (filter : Filter) (event : Event) : Bool :=
  filter.threshold.any fun level => event.level.verbosity ≤ level.verbosity

/-- The filter for a verbosity. Nothing passes if no level has it. -/
def ofVerbosity (n : Nat) : Filter := ⟨Level.all.find? fun level => level.verbosity = n⟩

/-- Reads a bare level in any letter case, a verbosity in decimal digits, `off`, or the empty text,
which lets nothing pass. -/
def ofText? (text : String) : Option Filter :=
  let lower := text.toLower
  if lower = "" ∨ lower = "off" then some ⟨none⟩
  else
    match Level.ofName? lower with
    | some level => some ⟨some level⟩
    | none => (Numeral.ofDecimal? text).map ofVerbosity

end Filter

def natValue (n : Nat) : String := Numeral.decimal n

def boolValue (b : Bool) : String := if b then "true" else "false"

/-- An absent value reads `None`. -/
def optionValue : Option Nat → String
  | none => "None"
  | some n => "Some(" ++ natValue n ++ ")"

end Log
end SoundLog
