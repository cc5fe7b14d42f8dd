import SoundLog.Bytes.LittleEndian
import SoundLog.Stream.Source

/-!
# Cursors

A cursor is a source with the number of bytes taken from it. Readers move it: they take single
bytes and little-endian numbers, or skip bytes. A byte that has arrived counts even when a later
one of the same number does not. A skip that ends early counts what it dropped; a skip that meets a
fault counts nothing.
-/

namespace SoundLog

/-- Why a read or a skip did not get all its bytes. -/
inductive Failure
  | shortRead (got wanted : Nat)
  | shortSkip (got wanted : Nat)
  | fault (fault : Fault)
  deriving DecidableEq

namespace Failure

def kind : Failure → FaultKind
  | shortRead .. => .unexpectedEof
  | shortSkip .. => .unexpectedEof
  | fault f => f.kind

def message : Failure → String
  | shortRead got wanted =>
    "stream ended after reading " ++ Numeral.decimal got ++ " of " ++ Numeral.decimal wanted
      ++ " bytes"
  | shortSkip got wanted =>
    "stream ended after skipping " ++ Numeral.decimal got ++ " of " ++ Numeral.decimal wanted
      ++ " bytes"
  | fault f => f.message

/-- Bytes are skipped in pieces of at most this size. -/
def maxSkipPiece : Nat := 8192

/-- The number of bytes that were asked for last, when the source had ended. -/
def request : Failure → Nat
  | shortRead got wanted => wanted - got
  | shortSkip got wanted => min (wanted - got) maxSkipPiece
  | fault _ => 0

end Failure

structure Cursor where
  source : Source
  /-- The number of bytes taken so far. -/
  offset : Nat := 0
  deriving DecidableEq

/-- A step on a cursor that yields a value or fails; the cursor moves in both cases. -/
abbrev Reader := EStateM Failure Cursor

namespace Reader

/-- `n` more bytes of a number of `wanted`. -/
def collect (wanted : Nat) : Nat → Reader (List UInt8)
  | 0, cursor => .ok [] cursor
  | n + 1, cursor =>
    match cursor.source.pull with
    | .byte b rest =>
      match collect wanted n ⟨rest, cursor.offset + 1⟩ with
      | .ok bs after => .ok (b :: bs) after
      | .error failure after => .error failure after
    | .ended rest => .error (.shortRead (wanted - (n + 1)) wanted) { cursor with source := rest }
    | .fault f rest => .error (.fault f) { cursor with source := rest }

def bytes (n : Nat) : Reader (List UInt8) := collect n n

def byte : Reader UInt8 := fun cursor =>
  match cursor.source.pull with
  | .byte b rest => .ok b ⟨rest, cursor.offset + 1⟩
  | .ended rest => .error (.shortRead 0 1) { cursor with source := rest }
  | .fault f rest => .error (.fault f) { cursor with source := rest }

/-- Two bytes that are asked for together. -/
def pair : Reader (UInt8 × UInt8) := (fun bs => (bs.getD 0 0, bs.getD 1 0)) <$> bytes 2

def number (width : Nat) : Reader Nat := LittleEndian.toNat <$> bytes width

def skip (n : Nat) : Reader Unit := fun cursor =>
  match cursor.source.discard n with
  | .done rest => .ok () ⟨rest, cursor.offset + n⟩
  | .ended missing rest => .error (.shortSkip (n - missing) n) ⟨rest, cursor.offset + (n - missing)⟩
  | .fault f rest => .error (.fault f) { cursor with source := rest }

end Reader
end SoundLog
