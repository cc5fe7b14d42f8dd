import SoundLog.Gzip.Member

/-!
# Rounds

A packed file is fetched in pieces, and its contents are put out in windows. Inflating goes on in
rounds: a round stops at the end of a window, or when what has been fetched is used up. At the end
of a window the symbol behind it has been taken already, but a stored byte has not. So the last
bytes of a piece can be used up before what they stand for is put out.

The sizes of pieces and windows are those of the library that the modules on gzip stand in for. No
theorem depends on them.
-/

namespace SoundLog
namespace Gzip

def windowSize : Nat := 32768

/-- The number of bytes fetched at once, but for the first piece of a file. -/
def pieceSize : Nat := 32768

/-- The ends of the pieces that are fetched from a place in a file on, with that place, as far as
they lie before the end of the file. -/
def pieceEnds (start size : Nat) : List Nat :=
  ((List.range (size / pieceSize + 1)).map fun n => start + pieceSize * n).filter (· < size)

/-! ## Parts of files -/

/-- What inflating the first pieces of a file gives. -/
structure Part where
  /-- The number of bytes in the pieces. -/
  length : Nat
  /-- The number of bytes put out. -/
  size : Nat
  /-- The least number of bytes that have been put out when the last byte is used. -/
  sizeBefore : Nat
  /-- Whether no byte is left over. -/
  isUsedUp : Bool

namespace Part

/-- The parts of a file up to some ends, in their order, if inflating has come to `before` with its
first `length` bytes and `data` follows. An end inside those bytes adds nothing. -/
def listFrom : Inflated → (length : Nat) → (data : List UInt8) → (ends : List Nat) → List Part
  | _, _, _, [] => []
  | before, length, data, stop :: ends =>
    let piece := data.take (stop - length)
    let almost := before.resume piece.dropLast
    let whole := almost.resume (piece.drop (piece.length - 1))
    let part : Part :=
      { length := stop
        size := whole.size
        sizeBefore := if almost.isStoring then whole.size else almost.size
        isUsedUp := whole.isUsedUp }
    part :: listFrom whole (max length stop) (data.drop (stop - length)) ends

def list (bytes : List UInt8) (ends : List Nat) : List Part :=
  match Header.skip bytes with
  | .error _ => []
  | .ok data => listFrom .start (bytes.length - data.length) data ends

end Part

/-! ## Rounds -/

/-- The stretch of the contents that one round puts out. -/
structure Round where
  start : Nat
  stop : Nat

/-- The last end of a window with something behind it. -/
def lastWindow (size : Nat) : Nat := (size - 1) / windowSize * windowSize

/-- The round that uses up a part of a file, if `before` bytes are put out in the rounds before the
last piece of it has been fetched. There is none if the data is over, or turns out corrupt, before
the end of the part. -/
def Part.lastRound? (part : Part) (before : Nat) : Option Round :=
  let endingAt (stop : Nat) : Round := ⟨max before (lastWindow stop), stop⟩
  let window := lastWindow part.size
  if before < window ∧ part.sizeBefore ≤ window then some (endingAt window)
  else if part.isUsedUp then some (endingAt part.size)
  else none

/-- The number of bytes put out when the last one of some parts of a file is used up, or the last
one that can be. -/
def usedUpPlace (parts : List Part) : Nat :=
  parts.foldl
    (fun before part =>
      match part.lastRound? before with
      | some round => round.stop
      | none => before)
    0

end Gzip
end SoundLog
