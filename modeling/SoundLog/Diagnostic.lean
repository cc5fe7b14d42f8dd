import SoundLog.Header.Field
import SoundLog.Stream.Cursor

/-!
# Diagnostics

A diagnostic says what is wrong with a log, how many bytes had been taken when that showed, and
which file the log came from. A report is a list of at least one diagnostic.
-/

namespace SoundLog

/-- What can be wrong with a log. -/
inductive Problem
  | badMagic (received : List UInt8)
  | unsupportedVersion (received : UInt32)
  /-- The data ends before the place where the header says that the commands start. -/
  | shortGap (dataOffset : Nat) (cause : Failure)
  | unreadable (cause : Failure)
  | unknownTag (tag : UInt8)
  /-- A data block whose second byte is not the mark that goes with its tag. -/
  | badDataBlock (mark : UInt8)
  /-- A finding in a caller's own words. -/
  | remark (text : String)
  deriving DecidableEq

namespace Problem

private def upperHexBytes (bs : List UInt8) : String :=
  String.join (bs.map fun b => Numeral.paddedUpperHex 2 b.toNat)

private def versionText (version : UInt32) : String := "0x" ++ Numeral.hex version.toNat

def message : Problem → String
  | badMagic received =>
    "bad magic number: received " ++ upperHexBytes received ++ ", expected "
      ++ upperHexBytes Header.magic
  | unsupportedVersion received =>
    "unsupported format version: received " ++ versionText received ++ ", expected one of "
      ++ " ".intercalate (Header.supportedVersions.map versionText)
  | shortGap dataOffset _ => "stream ended before data offset 0x" ++ Numeral.hex dataOffset
  | unreadable cause => cause.message
  | unknownTag tag => "unrecognized command tag 0x" ++ Numeral.paddedHex 2 tag.toNat
  | badDataBlock mark =>
    "bad data block: received 67 " ++ Numeral.paddedHex 2 mark.toNat ++ ", expected 67 66"
  | remark text => text

/-- The failed read behind a problem, if there is one. -/
def cause : Problem → Option Failure
  | shortGap _ failure => some failure
  | unreadable failure => some failure
  | _ => none

/-- Running out of input in the middle of the commands only ends them. -/
def endsCommands : Problem → Bool
  | unreadable failure => failure.kind = .unexpectedEof
  | _ => false

end Problem

structure Diagnostic where
  /-- The number of bytes taken when the problem showed. -/
  offset : Nat
  path : Option String
  problem : Problem
  deriving DecidableEq

namespace Diagnostic

def message (d : Diagnostic) : String := d.problem.message

def text (d : Diagnostic) : String := "0x" ++ Numeral.hex d.offset ++ ": " ++ d.message

/-- The text with the path, if there is one, in front. -/
def locatedText (d : Diagnostic) : String :=
  match d.path with
  | none => d.text
  | some path => path ++ ": " ++ d.text

def causeText (d : Diagnostic) : Option String := d.problem.cause.map Failure.message

end Diagnostic

/-- At least one diagnostic, in the order of their finding. -/
structure Report where
  first : Diagnostic
  others : List Diagnostic := []
  deriving DecidableEq

namespace Report

def toList (report : Report) : List Diagnostic := report.first :: report.others

def push (report : Report) (d : Diagnostic) : Report :=
  { report with others := report.others ++ [d] }

/-- The located texts, one a line. -/
def text (report : Report) : String :=
  "\n".intercalate (report.toList.map Diagnostic.locatedText)

@[simp] theorem toList_push (report : Report) (d : Diagnostic) :
    (report.push d).toList = report.toList ++ [d] := rfl

end Report
end SoundLog
