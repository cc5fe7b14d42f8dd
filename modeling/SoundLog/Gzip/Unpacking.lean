import SoundLog.Gzip.Round
import SoundLog.Stream.Supply

/-!
# Unpacking files

What a round of inflating puts out is lost if the data turns out corrupt in it. If data that is cut
short is used up at the end of a window, what is still to be put out comes to one read only. A file
may be overwritten while it is read: the read behind the round that uses up a piece fetches the next
one, so what has been fetched by then stays as it was, and what is fetched later comes from the new
file.

When bytes are lost follows the library that the modules on gzip stand in for. No theorem depends on
it.
-/

namespace SoundLog
namespace Gzip

/-! ## The contents -/

/-- What follows contents that turn out corrupt. Every later read fails in the same way; a reader
that fails twice in one place has no use for a third. -/
def corruptEnd : Source := List.replicate 2 (.fault corruptFault)

/-- The contents of the first member of a file whose pieces have the given ends. -/
def unpackPieces (ends : List Nat) (bytes : List UInt8) : Supply :=
  match (Header.skip bytes).map inflate with
  | .error fault => { source := [.fault fault] }
  | .ok (.corrupt output) =>
    let safe := max (usedUpPlace (Part.list bytes ends)) (lastWindow output.size)
    { source := Source.ofBytes (output.toList.take safe), rest := corruptEnd }
  | .ok (.incomplete output ..) =>
    let timely := usedUpPlace (Part.list bytes (ends ++ [bytes.length]))
    { source := Source.ofBytes (output.toList.take timely)
      passing := output.toList.drop timely
      rest := [.fault incompleteFault] }
  | .ok (.complete output rest) =>
    let contents := output.toList
    { source := Source.ofBytes contents
      rest := ((trailerFault? contents (Bits.toBytes rest)).map .fault).toList }

/-- The contents of the first member of a file, the first piece of which is fetched with `first`
bytes. -/
def unpack (first : Nat) (bytes : List UInt8) : Supply :=
  unpackPieces (pieceEnds first bytes.length) bytes

/-! ## Files that change -/

/-- The number of bytes that the last read for a command that writes a register asks for. -/
def writeReadSize : Nat := 2

/-- The number of bytes fetched of a file when `taken` bytes of its contents have been taken, the
last of them with a command that writes a register, and `before` bytes are put out in the rounds
before the first of `parts`. There is none if the end of the file has been found. -/
def fetchedSize? (taken : Nat) : (before : Nat) → (parts : List Part) → Option Nat
  | _, [] => none
  | before, part :: parts =>
    match part.lastRound? before with
    | none => some part.length
    | some round =>
      if taken ≤ min (round.start + writeReadSize) round.stop then some part.length
      else fetchedSize? taken round.stop parts

/-- The contents of a file that is overwritten with `text` when `taken` bytes of the contents have
been taken, the last of them with a command that writes a register. Data that has been found at its
end before is corrupt if it goes on. -/
def unpackOverwritten (first : Nat) (bytes : List UInt8) (taken : Nat) (text : List UInt8) :
    Supply :=
  let ends := pieceEnds first bytes.length
  match fetchedSize? taken 0 (Part.list bytes (ends ++ [bytes.length])) with
  | some size =>
    let changed := bytes.take size ++ text.drop size
    unpackPieces (pieceEnds first size ++ pieceEnds size changed.length) changed
  | none =>
    let unchanged := unpackPieces ends bytes
    if text.length ≤ bytes.length then unchanged
    else
      let contents := unchanged.source.bytes ++ unchanged.passing
      { source := Source.ofBytes (contents.take taken), rest := corruptEnd }

end Gzip
end SoundLog
