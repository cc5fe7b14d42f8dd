import SoundLog.Proofs.Command.Accounting
import SoundLog.Proofs.Command.Composition

/-!
# Decoding what is stored

Where the bytes of a reserved opcode are ahead, decoding goes on behind them. Where those of a
command are ahead, decoding yields the command and stands behind them.
-/

namespace SoundLog
namespace Command

variable {header : Header} {cursor : Cursor}

theorem decode_opcode (opcode : Opcode header.version) {rest : List UInt8}
    (hintact : cursor.source.Intact) (hbytes : cursor.source.bytes = opcode.bytes ++ rest) :
    ∃ after, cursor.Takes opcode.bytes after ∧ after.source.bytes = rest ∧
      decode header.hasWideReserved cursor = decode header.hasWideReserved after := by
  obtain ⟨afterTag, hbyte, htag, hleft⟩ :=
    byte_reads.exists_ok hintact (show _ = [opcode.tag] ++ _ from hbytes) rfl
  obtain ⟨after, hskip, hpayload, hleft⟩ :=
    (skip_reads opcode.payload.length).exists_ok htag.intact hleft rfl
  have hreserved := reservedLength?_eq_some_iff.mpr opcode.reserved
  exact ⟨after, htag.trans hpayload, hleft, decode_of_skip hbyte hreserved hskip⟩

theorem decode_tag (kind : Kind) {rest : List UInt8} (hintact : cursor.source.Intact)
    (hbytes : cursor.source.bytes = kind.tag :: rest) :
    ∃ after, cursor.Takes [kind.tag] after ∧ after.source.bytes = rest ∧
      decode header.hasWideReserved cursor = decodePayload kind after := by
  obtain ⟨after, hbyte, htag, hleft⟩ :=
    byte_reads.exists_ok hintact (show _ = [kind.tag] ++ _ from hbytes) rfl
  refine ⟨after, htag, hleft, ?_⟩
  rw [decode_of_tag hbyte (Kind.reservedLength?_tag _ kind)]
  simp only [List.headD_cons, decodeTagged, Kind.ofTag?_tag]

theorem decodeDataBlock_stored (type : UInt8) (size : UInt32) {contents rest : List UInt8}
    (hcontents : contents.length = size.toNat) (hintact : cursor.source.Intact)
    (hbytes : cursor.source.bytes = (dataBlock type size).payload contents ++ rest) :
    ∃ after, decodeDataBlock cursor = .ok (dataBlock type size) after ∧
      cursor.Takes ((dataBlock type size).payload contents) after ∧ after.source.bytes = rest := by
  have hbound : size.toNat < 256 ^ 4 := size.toNat_lt
  simp only [payload, List.cons_append, List.append_assoc] at hbytes
  obtain ⟨afterMark, hmark, hfront, hleft⟩ :=
    byte_reads.exists_ok hintact (show _ = [dataBlockMark] ++ _ from hbytes) rfl
  obtain ⟨afterType, htype, htakes, hleft⟩ :=
    byte_reads.exists_ok hfront.intact (show _ = [type] ++ _ from hleft) rfl
  have hfront := hfront.trans htakes
  obtain ⟨afterSize, hsize, htakes, hleft⟩ :=
    (number_reads 4).exists_ok hfront.intact hleft (LittleEndian.length_ofNat _ _)
  have hfront := hfront.trans htakes
  rw [LittleEndian.toNat_ofNat hbound] at hsize
  obtain ⟨after, hskip, htakes, hleft⟩ :=
    (skip_reads size.toNat).exists_ok hfront.intact hleft hcontents
  refine ⟨after, ?_, by simpa [payload] using hfront.trans htakes, hleft⟩
  rw [decodeDataBlock, bind_of_ok hmark, if_pos (List.headD_cons ..), bind_of_ok htype,
    bind_of_ok hsize, bind_of_ok hskip, List.headD_cons, UInt32.ofNat_toNat]
  rfl

/-- Decoding undoes encoding. -/
theorem decode_encode {command : Command} {contents rest : List UInt8} (hne : command ≠ .eof)
    (hcontents : contents.length = command.contentsSize) (hintact : cursor.source.Intact)
    (hbytes : cursor.source.bytes = command.encode contents ++ rest) :
    ∃ after, decode header.hasWideReserved cursor = .ok command after ∧
      cursor.Takes (command.encode contents) after ∧ after.source.bytes = rest := by
  rw [encode_eq_cons hne] at hbytes ⊢
  obtain ⟨afterTag, htag, hleft, hdecode⟩ := @decode_tag header _ _ _ hintact hbytes
  rw [hdecode]
  by_cases hblock : command.kind = .dataBlock
  · cases command with
    | dataBlock type size =>
      obtain ⟨after, hstep, htakes, hleft⟩ :=
        decodeDataBlock_stored type size hcontents htag.intact hleft
      exact ⟨after, hstep, htag.trans htakes, hleft⟩
    | _ => cases hblock
  · have heof : command.kind ≠ .eof := by
      cases command with
      | eof => exact absurd rfl hne
      | _ => simp [kind]
    obtain ⟨after, hstep, htakes, hleft⟩ := (decodePayload_reads heof hblock).exists_ok htag.intact
      hleft (length_payload hblock contents)
    rw [command_payload] at hstep
    exact ⟨after, hstep, htag.trans htakes, hleft⟩

/-! ## Commands behind opcodes -/

/-- A command with the reserved opcodes in front of it and the contents it has if it is a data
block. -/
structure Segment (version : UInt32) where
  opcodes : List (Opcode version)
  command : Command
  contents : List UInt8
  ne_eof : command ≠ .eof
  length_contents : contents.length = command.contentsSize

def Segment.bytes {version : UInt32} (segment : Segment version) : List UInt8 :=
  Opcode.join segment.opcodes ++ segment.command.encode segment.contents

theorem decode_opcodes (opcodes : List (Opcode header.version)) {rest : List UInt8}
    (hintact : cursor.source.Intact) (hbytes : cursor.source.bytes = Opcode.join opcodes ++ rest) :
    ∃ after, cursor.Takes (Opcode.join opcodes) after ∧ after.source.bytes = rest ∧
      decode header.hasWideReserved cursor = decode header.hasWideReserved after := by
  induction opcodes generalizing cursor with
  | nil => exact ⟨cursor, .refl hintact, hbytes, rfl⟩
  | cons opcode opcodes ih =>
    rw [Opcode.join_cons, List.append_assoc] at hbytes
    obtain ⟨middle, hfirst, hleft, hdecode⟩ := decode_opcode opcode hintact hbytes
    obtain ⟨after, hothers, hleft, hdecodeOthers⟩ := ih hfirst.intact hleft
    exact ⟨after, hfirst.trans hothers, hleft, hdecode.trans hdecodeOthers⟩

theorem decode_segment (segment : Segment header.version) {rest : List UInt8}
    (hintact : cursor.source.Intact) (hbytes : cursor.source.bytes = segment.bytes ++ rest) :
    ∃ after, decode header.hasWideReserved cursor = .ok segment.command after ∧
      cursor.Takes segment.bytes after ∧ after.source.bytes = rest := by
  rw [Segment.bytes, List.append_assoc] at hbytes
  obtain ⟨middle, hopcodes, hleft, hdecode⟩ := decode_opcodes segment.opcodes hintact hbytes
  obtain ⟨after, hstep, htakes, hleft⟩ :=
    decode_encode segment.ne_eof segment.length_contents hopcodes.intact hleft
  exact ⟨after, hdecode.trans hstep, hopcodes.trans htakes, hleft⟩

/-- Where nothing but opcodes is left there is no command. -/
theorem decode_exhausted (opcodes : List (Opcode header.version)) (hintact : cursor.source.Intact)
    (hbytes : cursor.source.bytes = Opcode.join opcodes) :
    ∃ problem after, decode header.hasWideReserved cursor = .error problem after ∧
      Exhausted problem := by
  rw [← List.append_nil (Opcode.join opcodes)] at hbytes
  obtain ⟨middle, hopcodes, hleft, hdecode⟩ := decode_opcodes opcodes hintact hbytes
  rw [hdecode]
  obtain ⟨taken, after, hbyte, hlength, htakes⟩ |
    ⟨taken, after, problem, hbyte, hproblem, -⟩ := byte_reads middle hopcodes.intact
  · rw [htakes.bytes_eq, List.append_eq_nil_iff] at hleft
    simp [hleft.1] at hlength
  · exact ⟨problem, after, decode_of_byte_error hbyte, hproblem⟩

end Command
end SoundLog
