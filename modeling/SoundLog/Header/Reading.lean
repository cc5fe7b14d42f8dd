import SoundLog.Header.Basic
import SoundLog.Log

/-!
# Reading a header

The fields are read one after the other. Two of them are checked at once, so that a file of another
kind is refused at its fourth byte and one of another version at its twelfth, however long it is.
What was accepted is kept when reading stops early.

How much is read for a field and what its bytes are decoded to follow the table of fields, so there
is no assertion here about the place that has been reached. `Opening.parse` has the typed reads one
by one, with the assertions, and comes to the same.
-/

namespace SoundLog
namespace Header

structure Reading where
  /-- The bytes of all fields that were read and passed their check. -/
  accepted : List UInt8
  /-- What stopped the reading, if something did. -/
  problem : Option Problem
  cursor : Cursor

/-- What is wrong with the bytes of a field. -/
def objection? (field : Field) (bytes : List UInt8) : Option Problem :=
  match field with
  | .ident => if bytes = magic then none else some (.badMagic bytes)
  | .version =>
    let version := UInt32.ofNat (LittleEndian.toNat bytes)
    if isSupportedVersion version then none else some (.unsupportedVersion version)
  | _ => none

def readFields : List Field → Cursor → Reading
  | [], cursor => ⟨[], none, cursor⟩
  | field :: fields, cursor =>
    match Reader.bytes field.length cursor with
    | .error failure after => ⟨[], some (.unreadable failure), after⟩
    | .ok bytes after =>
      match objection? field bytes with
      | some problem => ⟨[], some problem, after⟩
      | none =>
        let rest := readFields fields after
        { rest with accepted := bytes ++ rest.accepted }

def read (source : Source) : Reading := readFields Field.all { source }

def fieldEvent? (bytes : List UInt8) (field : Field) : Option Log.Event :=
  let stored := storedValue bytes field
  let event (message : String) (fields : List (String × String)) : Log.Event :=
    { level := .trace, origin := .parser, message, fields }
  match field with
  | .eofOffset =>
    event "eof offset"
      [("raw", Log.natValue stored), ("absolute", Log.natValue (stored + field.offset))]
  | .version => event "header version" [("version", "0x" ++ Numeral.hex stored)]
  | .gd3Offset =>
    event "gd3 offset"
      [("raw", Log.natValue stored), ("absolute", Log.optionValue (position? field stored))]
  | .loopOffset =>
    event "loop offset"
      [("raw", Log.natValue stored), ("absolute", Log.optionValue (position? field stored))]
  | .dataOffset =>
    event "data offset"
      [("raw", Log.natValue stored),
        ("absolute", Log.natValue ((position? field stored).getD defaultDataOffset))]
  | _ => none

/-- The events of the accepted fields, in order. -/
def Reading.events (reading : Reading) : List Log.Event :=
  (Field.all.filter fun field => field.stop ≤ reading.accepted.length).filterMap
    (fieldEvent? reading.accepted)

end Header
end SoundLog
