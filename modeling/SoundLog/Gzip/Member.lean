import SoundLog.Bytes.LittleEndian
import SoundLog.Gzip.Checksum
import SoundLog.Gzip.Inflate
import SoundLog.Stream.Source

/-!
# Gzip members

A member is a header, compressed data and a trailer with the checksum and the size of the contents.
Only the first member of a file counts. What goes wrong becomes a fault behind the contents that
could be read.

Like the other modules on gzip this stands in for a library that unpacks files, and no theorem
depends on it.
-/

namespace SoundLog
namespace Gzip

/-- The two bytes every member starts with. -/
def magic : List UInt8 := [0x1F, 0x8B]

/-- The data ends inside the header or the trailer. -/
def endedFault : Fault := ⟨.unexpectedEof, "unexpected end of file"⟩

def headerFault : Fault := ⟨.invalidInput, "invalid gzip header"⟩

def longFieldFault : Fault := ⟨.invalidInput, "gzip header field too long"⟩

def checksumFault : Fault :=
  ⟨.invalidInput, "corrupt gzip stream does not have a matching checksum"⟩

def incompleteFault : Fault := ⟨.unexpectedEof, "incomplete deflate stream"⟩

def corruptFault : Fault := ⟨.invalidInput, "corrupt deflate stream"⟩

namespace Header

/-- A part of the header that has been read, and the bytes behind it. -/
abbrev Part := Except Fault (List UInt8 × List UInt8)

/-- The number of bytes before the optional parts. -/
def fixedSize : Nat := 10

def maxTextLength : Nat := 65535

/-- The flags without a meaning are the highest three; none of them may be set. -/
def maxFlags : Nat := 0x1F

def takeBytes (n : Nat) (bytes : List UInt8) : Part :=
  if bytes.length < n then .error endedFault else .ok (bytes.take n, bytes.drop n)

/-- A field of its own length, which stands in front of it. -/
def takeExtra (bytes : List UInt8) : Part := do
  let (length, rest) ← takeBytes 2 bytes
  let (field, rest) ← takeBytes (LittleEndian.toNat length) rest
  return (length ++ field, rest)

/-- A text up to and with a zero byte. -/
def takeText (bytes : List UInt8) : Part :=
  let text := bytes.takeWhile (· ≠ 0)
  if maxTextLength < text.length then .error longFieldFault
  else takeBytes (text.length + 1) bytes

/-- A part that is there only if a flag is set. -/
def takeIf (flag : Bool) (part : List UInt8 → Part) (bytes : List UInt8) : Part :=
  if flag then part bytes else .ok ([], bytes)

/-- Reads a header and gives the bytes behind it. -/
def skip (bytes : List UInt8) : Except Fault (List UInt8) := do
  let (fixed, rest) ← takeBytes fixedSize bytes
  let flags := (fixed.getD 3 0).toNat
  if fixed.take 3 ≠ magic ++ [8] ∨ maxFlags < flags then throw headerFault
  let (extra, rest) ← takeIf (flags.testBit 2) takeExtra rest
  let (name, rest) ← takeIf (flags.testBit 3) takeText rest
  let (comment, rest) ← takeIf (flags.testBit 4) takeText rest
  let (stored, rest) ← takeIf (flags.testBit 1) (takeBytes 2) rest
  let sum := (checksum (fixed ++ extra ++ name ++ comment)).toNat % 65536
  if flags.testBit 1 ∧ LittleEndian.toNat stored ≠ sum then throw checksumFault
  return rest

end Header

/-- What is wrong with the trailer behind some contents. -/
def trailerFault? (contents trailer : List UInt8) : Option Fault :=
  if trailer.length < 8 then some endedFault
  else if LittleEndian.toNat (trailer.take 4) ≠ (checksum contents).toNat then some checksumFault
  else if LittleEndian.toNat ((trailer.drop 4).take 4) ≠ contents.length % Nat.pow 2 32 then
    some checksumFault
  else none

end Gzip
end SoundLog
