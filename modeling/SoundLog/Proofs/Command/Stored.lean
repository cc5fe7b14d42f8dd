import SoundLog.Command.Decoding
import SoundLog.Header.Basic
import SoundLog.Proofs.Stream.Intact
import Mathlib.Data.List.Basic

/-!
# Stored commands

The stored form of the commands and of the reserved opcodes, said without the decoder: which tags
are reserved and how many bytes belong to them, which bytes stand for a command, and which bytes
stand for nothing. The payload of a command and the command of a payload undo each other, and the
decoder reads the payloads of fixed length in this way.
-/

namespace SoundLog
namespace Command

/-! ## Reserved opcodes -/

/-- The reserved tags of a format version, each with the number of bytes that belong to it. -/
inductive ReservedTag (version : UInt32) (tag : UInt8) : Nat → Prop
  | from30 (h : 0x30 ≤ tag ∧ tag ≤ 0x3F) : ReservedTag version tag 1
  | narrow40 (old : version < 0x160) (h : 0x40 ≤ tag ∧ tag ≤ 0x4E) : ReservedTag version tag 1
  | wide40 (new : 0x160 ≤ version) (h : 0x40 ≤ tag ∧ tag ≤ 0x4E) : ReservedTag version tag 2
  | fromA1 (h : 0xA1 ≤ tag ∧ tag ≤ 0xAF) : ReservedTag version tag 2
  | fromC9 (h : 0xC9 ≤ tag ∧ tag ≤ 0xCF) : ReservedTag version tag 3
  | fromD7 (h : 0xD7 ≤ tag ∧ tag ≤ 0xDF) : ReservedTag version tag 3
  | fromE2 (h : 0xE2 ≤ tag) : ReservedTag version tag 4

theorem reservedLength?_eq_some_iff {header : Header} {tag : UInt8} {length : Nat} :
    reservedLength? header.hasWideReserved tag = some length ↔
      ReservedTag header.version tag length := by
  unfold reservedLength?
  constructor
  · intro h
    split at h
    · next hrange => cases h; exact .from30 hrange
    split at h
    · next hrange =>
      by_cases hwide : 0x160 ≤ header.version
      · simp only [Header.hasWideReserved, hwide, decide_true, if_true] at h
        cases h
        exact .wide40 hwide hrange
      · simp only [Header.hasWideReserved, hwide, decide_false] at h
        cases h
        exact .narrow40 (UInt32.not_le.mp hwide) hrange
    split at h
    · next hrange => cases h; exact .fromA1 hrange
    split at h
    · next hrange =>
      cases h
      exact hrange.elim .fromC9 .fromD7
    split at h
    · next hrange => cases h; exact .fromE2 hrange
    · cases h
  · intro h
    cases h <;> grind [Header.hasWideReserved]

/-- A reserved opcode with the bytes that belong to it. -/
structure Opcode (version : UInt32) where
  tag : UInt8
  payload : List UInt8
  reserved : ReservedTag version tag payload.length

namespace Opcode

variable {version : UInt32}

def bytes (opcode : Opcode version) : List UInt8 := opcode.tag :: opcode.payload

def join (opcodes : List (Opcode version)) : List UInt8 := opcodes.flatMap bytes

@[simp] theorem join_nil : join ([] : List (Opcode version)) = [] := rfl

@[simp] theorem join_cons (opcode : Opcode version) (opcodes : List (Opcode version)) :
    join (opcode :: opcodes) = opcode.bytes ++ join opcodes := rfl

end Opcode

/-! ## Tags -/

theorem Kind.tag_of_ofTag? {tag : UInt8} {kind : Kind} (h : Kind.ofTag? tag = some kind) :
    kind.tag = tag := by
  have hall : ∀ i : Fin 256, ∀ kind ∈ Kind.ofTag? (UInt8.ofFin i), kind.tag = UInt8.ofFin i := by
    decide +kernel
  exact hall tag.toFin kind h

theorem Kind.reservedLength?_tag (wide : Bool) (kind : Kind) :
    reservedLength? wide kind.tag = none := by
  cases kind with
  | ym2612Write port => revert wide port; decide
  | waitShort nibble => revert wide nibble; decide
  | ym2612PcmWriteWait nibble => revert wide nibble; decide
  | _ => revert wide; decide

/-! ## Stored forms -/

/-- The number of bytes in the contents of a data block; other commands have no contents. -/
def contentsSize : Command → Nat
  | dataBlock _ size => size.toNat
  | _ => 0

/-- The bytes are the stored form of the command, with some contents if it is a data block. -/
def Stored (command : Command) (bytes : List UInt8) : Prop :=
  command ≠ .eof ∧
    ∃ contents, contents.length = command.contentsSize ∧ bytes = command.encode contents

theorem encode_eq_cons {command : Command} (h : command ≠ .eof) (contents : List UInt8) :
    command.encode contents = command.kind.tag :: command.payload contents := by
  cases command with
  | eof => exact absurd rfl h
  | _ => rfl

/-- The bytes begin the stored form of an opcode or of a command, but are not all of it. -/
def Cut (version : UInt32) (bytes : List UInt8) : Prop :=
  ∃ whole, ((∃ opcode : Opcode version, whole = opcode.bytes) ∨ ∃ command, Stored command whole) ∧
    bytes <+: whole ∧ bytes ≠ whole

/-- The bytes stand for nothing: a tag that is neither reserved nor that of a stored command, or
the tag of a data block before another byte than its mark. -/
def Unrecognized (version : UInt32) (bytes : List UInt8) : Prop :=
  (∃ tag, bytes = [tag] ∧ (∀ length, ¬ ReservedTag version tag length) ∧
      ∀ kind, kind ≠ Kind.eof → kind.tag ≠ tag) ∨
    ∃ mark, bytes = [0x67, mark] ∧ mark ≠ 0x66

theorem Cut.of_append {version : UInt32} {bytes : List UInt8} (more : List UInt8)
    {command : Command} (h : Stored command (bytes ++ more)) (hmore : more ≠ []) :
    Cut version bytes := by
  refine ⟨bytes ++ more, Or.inr ⟨command, h⟩, List.prefix_append _ _, ?_⟩
  intro heq
  exact hmore (List.self_eq_append_right.mp heq)

/-! ## Payloads -/

/-- The number of bytes in the payloads of a kind, without those before and in the contents of a
data block. -/
def Kind.payloadSize : Kind → Nat
  | .gameGearStereoWrite => 1
  | .psgWrite => 1
  | .ym2413Write => 2
  | .ym2612Write _ => 2
  | .ym2612SeekPcm => 4
  | .waitLong => 2
  | _ => 0

def Kind.command (payload : List UInt8) : Kind → Command
  | .eof => .eof
  | .gameGearStereoWrite => .gameGearStereoWrite (payload.headD 0)
  | .psgWrite => .psgWrite (payload.headD 0)
  | .ym2413Write => .ym2413Write (payload.getD 0 0) (payload.getD 1 0)
  | .ym2612Write port => .ym2612Write port (payload.getD 0 0) (payload.getD 1 0)
  | .ym2612SeekPcm => .ym2612SeekPcm (UInt32.ofNat (LittleEndian.toNat payload))
  | .waitLong => .waitLong (UInt16.ofNat (LittleEndian.toNat payload))
  | .wait735 => .wait735
  | .wait882 => .wait882
  | .endOfSoundData => .endOfSoundData
  | .dataBlock =>
    .dataBlock (payload.getD 1 0) (UInt32.ofNat (LittleEndian.toNat ((payload.drop 2).take 4)))
  | .waitShort nibble => .waitShort nibble
  | .ym2612PcmWriteWait nibble => .ym2612PcmWriteWait nibble

@[simp] theorem Kind.kind_command (payload : List UInt8) (kind : Kind) :
    (kind.command payload).kind = kind := by
  cases kind <;> rfl

theorem command_payload (command : Command) (contents : List UInt8) :
    command.kind.command (command.payload contents) = command := by
  cases command with
  | ym2612SeekPcm offset =>
    have hbound : offset.toNat < 256 ^ 4 := offset.toNat_lt
    simp [kind, payload, Kind.command, LittleEndian.toNat_ofNat hbound]
  | waitLong samples =>
    have hbound : samples.toNat < 256 ^ 2 := samples.toNat_lt
    simp [kind, payload, Kind.command, LittleEndian.toNat_ofNat hbound]
  | dataBlock type size =>
    have hbound : size.toNat < 256 ^ 4 := size.toNat_lt
    have hsize : (LittleEndian.ofNat 4 size.toNat ++ contents).take 4 =
        LittleEndian.ofNat 4 size.toNat := List.take_left' (LittleEndian.length_ofNat _ _)
    simp [kind, payload, Kind.command, hsize, LittleEndian.toNat_ofNat hbound]
  | _ => rfl

theorem payload_command {kind : Kind} (hblock : kind ≠ .dataBlock) {bs : List UInt8}
    (hlength : bs.length = kind.payloadSize) (contents : List UInt8) :
    (kind.command bs).payload contents = bs := by
  have hbound := LittleEndian.toNat_lt bs
  have hstored := LittleEndian.ofNat_toNat bs
  rw [hlength] at hbound hstored
  cases kind with
  | dataBlock => exact absurd rfl hblock
  | gameGearStereoWrite =>
    obtain ⟨b, rfl⟩ := List.length_eq_one_iff.mp hlength
    rfl
  | psgWrite =>
    obtain ⟨b, rfl⟩ := List.length_eq_one_iff.mp hlength
    rfl
  | ym2413Write =>
    obtain ⟨register, value, rfl⟩ := List.length_eq_two.mp hlength
    rfl
  | ym2612Write port =>
    obtain ⟨register, value, rfl⟩ := List.length_eq_two.mp hlength
    rfl
  | ym2612SeekPcm =>
    simpa [Kind.command, payload, Kind.payloadSize, UInt32.toNat_ofNat_of_lt' hbound] using hstored
  | waitLong =>
    simpa [Kind.command, payload, Kind.payloadSize, UInt16.toNat_ofNat_of_lt' hbound] using hstored
  | _ => exact (List.eq_nil_of_length_eq_zero hlength).symm

theorem length_payload {command : Command} (h : command.kind ≠ .dataBlock) (contents : List UInt8) :
    (command.payload contents).length = command.kind.payloadSize := by
  cases command with
  | dataBlock type size => exact absurd rfl h
  | ym2612SeekPcm offset => exact LittleEndian.length_ofNat _ _
  | waitLong samples => exact LittleEndian.length_ofNat _ _
  | _ => rfl

theorem stored_command {kind : Kind} (heof : kind ≠ .eof) (hblock : kind ≠ .dataBlock)
    (bs : List UInt8) (hlength : bs.length = kind.payloadSize) :
    Stored (kind.command bs) (kind.tag :: bs) := by
  have hne : kind.command bs ≠ .eof := by
    intro heq
    exact heof (by rw [← Kind.kind_command bs kind, heq]; rfl)
  have hsize : (kind.command bs).contentsSize = 0 := by
    cases kind with
    | dataBlock => exact absurd rfl hblock
    | _ => rfl
  refine ⟨hne, [], by rw [hsize, List.length_nil], ?_⟩
  rw [encode_eq_cons hne, payload_command hblock hlength, Kind.kind_command]

theorem stored_dataBlock (type : UInt8) (size contents : List UInt8) (hsize : size.length = 4)
    (hcontents : contents.length = LittleEndian.toNat size) :
    Stored (.dataBlock type (UInt32.ofNat (LittleEndian.toNat size)))
      (Kind.dataBlock.tag :: dataBlockMark :: type :: (size ++ contents)) := by
  have hbound := LittleEndian.toNat_lt size
  have hstored := LittleEndian.ofNat_toNat size
  rw [hsize] at hbound hstored
  refine ⟨by simp, contents, ?_, ?_⟩
  · simpa [contentsSize, UInt32.toNat_ofNat_of_lt' hbound] using hcontents
  · simp [encode, payload, kind, UInt32.toNat_ofNat_of_lt' hbound, hstored]

/-! ## Reading payloads -/

def Exhausted (problem : Problem) : Prop := problem.endsCommands = true

theorem Exhausted.of_runsOut (failure : Failure) (h : Reader.RunsOut failure) :
    Exhausted (.unreadable failure) := decide_eq_true h

theorem byte_reads : Reads Exhausted Decoder.byte 1 (fun bs => bs.headD 0) :=
  Reader.byte_reads.adaptExcept _ Exhausted.of_runsOut

theorem pair_reads : Reads Exhausted Decoder.pair 2 (fun bs => (bs.getD 0 0, bs.getD 1 0)) :=
  Reader.pair_reads.adaptExcept _ Exhausted.of_runsOut

theorem number_reads (width : Nat) :
    Reads Exhausted (Decoder.number width) width LittleEndian.toNat :=
  (Reader.number_reads width).adaptExcept _ Exhausted.of_runsOut

theorem skip_reads (n : Nat) : Reads Exhausted (Decoder.skip n) n (fun _ => ()) :=
  (Reader.skip_reads n).adaptExcept _ Exhausted.of_runsOut

theorem decodePayload_reads {kind : Kind} (heof : kind ≠ .eof) (hblock : kind ≠ .dataBlock) :
    Reads Exhausted (decodePayload kind) kind.payloadSize kind.command := by
  cases kind with
  | eof => exact absurd rfl heof
  | dataBlock => exact absurd rfl hblock
  | gameGearStereoWrite => exact byte_reads.map gameGearStereoWrite
  | psgWrite => exact byte_reads.map psgWrite
  | ym2413Write => exact pair_reads.map fun p => ym2413Write p.1 p.2
  | ym2612Write port => exact pair_reads.map fun p => ym2612Write port p.1 p.2
  | ym2612SeekPcm => exact (number_reads 4).map fun n => ym2612SeekPcm (UInt32.ofNat n)
  | waitLong => exact (number_reads 2).map fun n => waitLong (UInt16.ofNat n)
  | _ => exact Reads.of_pure _

end Command
end SoundLog
