import SoundLog.Command.Basic
import SoundLog.Diagnostic
import SoundLog.Stream.Progress

/-!
# Decoding commands

A command is found behind any number of reserved opcodes, which are skipped with the bytes that
belong to them. Each skipped opcode takes at least its tag from the source, so the search ends.
-/

namespace SoundLog

abbrev Decoder := EStateM Problem Cursor

namespace Decoder

/-- A read whose failure is a problem of the log. -/
def ofReader {α : Type} (reader : Reader α) : Decoder α := reader.adaptExcept .unreadable

def byte : Decoder UInt8 := ofReader Reader.byte

def pair : Decoder (UInt8 × UInt8) := ofReader Reader.pair

def number (width : Nat) : Decoder Nat := ofReader (Reader.number width)

def skip (n : Nat) : Decoder Unit := ofReader (Reader.skip n)

end Decoder

namespace Command

/-- The number of bytes that follow a reserved tag; `none` for all other tags. -/
def reservedLength? (wide : Bool) (tag : UInt8) : Option Nat :=
  if 0x30 ≤ tag ∧ tag ≤ 0x3F then some 1
  else if 0x40 ≤ tag ∧ tag ≤ 0x4E then some (if wide then 2 else 1)
  else if 0xA1 ≤ tag ∧ tag ≤ 0xAF then some 2
  else if (0xC9 ≤ tag ∧ tag ≤ 0xCF) ∨ (0xD7 ≤ tag ∧ tag ≤ 0xDF) then some 3
  else if 0xE2 ≤ tag then some 4
  else none

def decodeDataBlock : Decoder Command := do
  let mark ← Decoder.byte
  if mark = dataBlockMark then
    let type ← Decoder.byte
    let size ← Decoder.number 4
    Decoder.skip size
    return dataBlock type (UInt32.ofNat size)
  else
    throw (.badDataBlock mark)

/-- A command that writes a value into a register. -/
def decodeWrite (write : (register value : UInt8) → Command) : Decoder Command := do
  let payload ← Decoder.pair
  return write payload.1 payload.2

/-- Reads what follows the tag of a command of the given kind. -/
def decodePayload : Kind → Decoder Command
  | .eof => throw (.unknownTag Kind.eof.tag)
  | .gameGearStereoWrite => return gameGearStereoWrite (← Decoder.byte)
  | .psgWrite => return psgWrite (← Decoder.byte)
  | .ym2413Write => decodeWrite ym2413Write
  | .ym2612Write port => decodeWrite (ym2612Write port)
  | .ym2612SeekPcm => return ym2612SeekPcm (UInt32.ofNat (← Decoder.number 4))
  | .waitLong => return waitLong (UInt16.ofNat (← Decoder.number 2))
  | .wait735 => return wait735
  | .wait882 => return wait882
  | .endOfSoundData => return endOfSoundData
  | .dataBlock => decodeDataBlock
  | .waitShort nibble => return waitShort nibble
  | .ym2612PcmWriteWait nibble => return ym2612PcmWriteWait nibble

/-- Reads what follows a tag that is not reserved. -/
def decodeTagged (tag : UInt8) : Decoder Command :=
  match Kind.ofTag? tag with
  | some kind => decodePayload kind
  | none => throw (.unknownTag tag)

theorem size_of_byte {cursor after : Cursor} {b : UInt8}
    (h : Decoder.byte cursor = .ok b after) : after.source.size + 1 = cursor.source.size := by
  simp only [Decoder.byte, Decoder.ofReader, EStateM.adaptExcept, Reader.byte] at h
  cases hpull : cursor.source.pull with
  | byte value rest =>
    simp only [hpull] at h
    cases h
    exact Source.size_of_pull_byte hpull
  | ended rest => simp [hpull] at h
  | fault f rest => simp [hpull] at h

theorem size_of_skip {cursor after : Cursor} {n : Nat}
    (h : Decoder.skip n cursor = .ok () after) : after.source.size + n = cursor.source.size := by
  simp only [Decoder.skip, Decoder.ofReader, EStateM.adaptExcept, Reader.skip] at h
  cases hdiscard : cursor.source.discard n with
  | done rest =>
    simp only [hdiscard] at h
    cases h
    exact Source.size_of_discard_done hdiscard
  | ended missing rest => simp [hdiscard] at h
  | fault f rest => simp [hdiscard] at h

/-- The next command, past the reserved opcodes in front of it. -/
def decode (wide : Bool) (cursor : Cursor) : EStateM.Result Problem Cursor Command :=
  match htag : Decoder.byte cursor with
  | .error problem after => .error problem after
  | .ok tag afterTag =>
    match reservedLength? wide tag with
    | none => decodeTagged tag afterTag
    | some length =>
      match hskip : Decoder.skip length afterTag with
      | .error problem after => .error problem after
      | .ok () after =>
        have : after.source.size < cursor.source.size := by
          have htaken := size_of_byte htag
          have hskipped := size_of_skip hskip
          omega
        decode wide after
termination_by cursor.source.size

/-! ## Progress -/

theorem byte_moves : Moves Decoder.byte := Reader.byte_moves.adaptExcept _

theorem pair_moves : Moves Decoder.pair := Reader.pair_moves.adaptExcept _

theorem number_moves (width : Nat) : Moves (Decoder.number width) :=
  (Reader.number_moves width).adaptExcept _

theorem skip_moves (n : Nat) : Moves (Decoder.skip n) := (Reader.skip_moves n).adaptExcept _

theorem decodeDataBlock_moves : Moves decodeDataBlock := by
  refine byte_moves.bind fun mark => ?_
  split
  · refine byte_moves.bind fun type => (number_moves 4).bind fun size => ?_
    exact (skip_moves size).bind fun _ => Moves.of_pure _
  · exact Moves.of_throw _

theorem decodeWrite_moves (write : UInt8 → UInt8 → Command) : Moves (decodeWrite write) :=
  pair_moves.bind fun _ => Moves.of_pure _

theorem decodePayload_moves (kind : Kind) : Moves (decodePayload kind) := by
  cases kind with
  | eof => exact Moves.of_throw _
  | gameGearStereoWrite => exact byte_moves.bind fun _ => Moves.of_pure _
  | psgWrite => exact byte_moves.bind fun _ => Moves.of_pure _
  | ym2413Write => exact decodeWrite_moves _
  | ym2612Write port => exact decodeWrite_moves _
  | ym2612SeekPcm => exact (number_moves 4).bind fun _ => Moves.of_pure _
  | waitLong => exact (number_moves 2).bind fun _ => Moves.of_pure _
  | dataBlock => exact decodeDataBlock_moves
  | _ => exact Moves.of_pure _

theorem decodeTagged_moves (tag : UInt8) : Moves (decodeTagged tag) := by
  unfold decodeTagged
  split
  · exact decodePayload_moves _
  · exact Moves.of_throw _

theorem decode_moves (wide : Bool) : Moves (decode wide) := by
  intro cursor
  fun_induction decode wide cursor with
  | case1 cursor problem after htag =>
    have h := byte_moves cursor
    rwa [htag] at h
  | case2 cursor tag afterTag htag hlength =>
    have h := byte_moves cursor
    rw [htag] at h
    exact h.trans (decodeTagged_moves tag afterTag)
  | case3 cursor tag afterTag htag length hlength problem after hskip =>
    have h := byte_moves cursor
    rw [htag] at h
    have hs := skip_moves length afterTag
    rw [hskip] at hs
    exact h.trans hs
  | case4 cursor tag afterTag htag length hlength after hskip hsize ih =>
    have h := byte_moves cursor
    rw [htag] at h
    have hs := skip_moves length afterTag
    rw [hskip] at hs
    exact (h.trans hs).trans ih

/-- A decoded command has taken at least one byte. -/
theorem size_of_decode {wide : Bool} {cursor after : Cursor} {command : Command}
    (h : decode wide cursor = .ok command after) : after.source.size < cursor.source.size := by
  have htaken : ∀ {tag : UInt8} {afterTag : Cursor}, Decoder.byte cursor = .ok tag afterTag →
      Cursor.Advances afterTag after → after.source.size < cursor.source.size := by
    intro tag afterTag htag hadvances
    have hbyte := size_of_byte htag
    have hrest := hadvances.size_le
    omega
  rw [decode] at h
  split at h
  · cases h
  · next tag afterTag htag =>
    refine htaken htag ?_
    split at h
    · have hrest := decodeTagged_moves tag afterTag
      rwa [h] at hrest
    · next length hlength =>
      have hskip := skip_moves length afterTag
      split at h
      · cases h
      · next afterSkip heq =>
        rw [heq] at hskip
        have hrest := decode_moves wide afterSkip
        simp only at h
        rw [h] at hrest
        exact hskip.trans hrest

end Command
end SoundLog
