import SoundLog.Gzip.Unpacking
import SoundLog.Task

/-!
# Input

A log is read from a file or from standard input, plain or packed. It counts as packed if that is
asked for, if its path says so, or if it starts like a packed file. A directory can be opened but
not read. A file is read piece by piece, so that one that is overwritten on the way goes on with its
new contents.
-/

namespace SoundLog
namespace Input

def standardPath : String := "-"

def isStandard (path : String) : Bool := Path.parts path = Path.parts standardPath

/-- The path that diagnostics name. -/
def sourcePath? (path : String) : Option String := if isStandard path then none else some path

/-- The file endings of packed logs, in any letter case. -/
def packedExtensions : List String := ["vgz", "gz"]

def hasPackedExtension (path : String) : Bool :=
  (Path.extension? path).any fun extension => packedExtensions.contains extension.toLower

/-- What can be read from an entry. -/
def content : Entry → Except SystemError (List UInt8)
  | .file bytes => .ok bytes
  | .directory => .error .isADirectory

def systemFault (error : SystemError) : Fault :=
  match error with
  | .isADirectory => ⟨.isADirectory, error.message⟩
  | _ => ⟨.other, error.message⟩

private def packedEvent (path : String) : Log.Event :=
  { level := .debug
    origin := .input
    message := "decoding gzip input"
    fields := [("path", path)] }

/-- The size of the pieces in which a plain file is fetched, each when its first byte is asked for,
and of the piece that shows whether a file is packed. -/
def pieceSize : Nat := 8192

/-- An input that has been opened. -/
inductive Opened
  | plain (bytes : List UInt8)
  /-- The first piece of a packed file is fetched with `first` bytes. -/
  | packed (first : Nat) (content : Except SystemError (List UInt8))

namespace Opened

/-- What reading brings. -/
def supply : Opened → Supply
  | plain bytes => { source := Source.ofBytes bytes }
  | packed first (.ok bytes) => Gzip.unpack first bytes
  | packed _ (.error error) => { source := [.fault (systemFault error)] }

/-- The number of bytes of a plain file that have been fetched when `taken` bytes have been
taken. -/
def fetchedSize (taken : Nat) : Nat := (taken + pieceSize - 1) / pieceSize * pieceSize

/-- What reading brings if `text` overwrites the file when `taken` bytes have been taken. -/
def supplyOverwritten (taken : Nat) (text : List UInt8) : Opened → Supply
  | plain bytes =>
    let fetched := bytes.take (fetchedSize taken)
    { source := Source.ofBytes (fetched ++ text.drop fetched.length) }
  | packed first (.ok bytes) => Gzip.unpackOverwritten first bytes taken text
  | packed _ (.error error) => { source := [.fault (systemFault error)] }

end Opened

def task (path : String) (packed : Bool) (found : Except SystemError Entry) : Task Opened :=
  let unpacking (first : Nat) (content : Except SystemError (List UInt8)) : Task Opened :=
    { actions := [.note (packedEvent path)], result := .ok (.packed first content) }
  match found with
  | .error error => { result := .error (.openInput path error) }
  | .ok entry =>
    if packed || hasPackedExtension path then unpacking Gzip.pieceSize (content entry)
    else
      match content entry with
      | .error error => { result := .error (.readInput path error) }
      | .ok bytes =>
        if bytes.take 2 = Gzip.magic then unpacking pieceSize (.ok bytes)
        else { result := .ok (.plain bytes) }

end Input
end SoundLog
