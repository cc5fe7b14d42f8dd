import SoundLog.Command.Decoding
import SoundLog.Proofs.Stream.Intact

/-!
# How decoders are composed

A command is decoded tag by tag until one is not reserved. What follows that tag is decoded by a few
reads one after the other, so a property that the reads have and that sequencing keeps is a property
of all decoders of payloads. Data blocks stand apart, for they alone drop bytes.
-/

namespace SoundLog
namespace Command

/-! ## Tag by tag -/

section

variable {wide : Bool} {cursor afterTag after : Cursor} {tag : UInt8} {length : Nat}
  {problem : Problem}

theorem decode_of_byte_error (hbyte : Decoder.byte cursor = .error problem after) :
    decode wide cursor = .error problem after := by
  rw [decode]
  split
  · next heq =>
    obtain ⟨rfl, rfl⟩ := EStateM.Result.error.inj (hbyte.symm.trans heq)
    rfl
  · next heq => cases hbyte.symm.trans heq

theorem decode_of_tag (hbyte : Decoder.byte cursor = .ok tag afterTag)
    (hreserved : reservedLength? wide tag = none) :
    decode wide cursor = decodeTagged tag afterTag := by
  rw [decode]
  split
  · next heq => cases hbyte.symm.trans heq
  · next heq =>
    obtain ⟨rfl, rfl⟩ := EStateM.Result.ok.inj (hbyte.symm.trans heq)
    simp only [hreserved]

theorem decode_of_skip_error (hbyte : Decoder.byte cursor = .ok tag afterTag)
    (hreserved : reservedLength? wide tag = some length)
    (hskip : Decoder.skip length afterTag = .error problem after) :
    decode wide cursor = .error problem after := by
  rw [decode]
  split
  · next heq => cases hbyte.symm.trans heq
  · next heq =>
    obtain ⟨rfl, rfl⟩ := EStateM.Result.ok.inj (hbyte.symm.trans heq)
    simp only [hreserved]
    split
    · next heq =>
      obtain ⟨rfl, rfl⟩ := EStateM.Result.error.inj (hskip.symm.trans heq)
      rfl
    · next heq => cases hskip.symm.trans heq

/-- Behind a reserved opcode decoding starts anew. -/
theorem decode_of_skip (hbyte : Decoder.byte cursor = .ok tag afterTag)
    (hreserved : reservedLength? wide tag = some length)
    (hskip : Decoder.skip length afterTag = .ok () after) :
    decode wide cursor = decode wide after := by
  rw [decode]
  split
  · next heq => cases hbyte.symm.trans heq
  · next heq =>
    obtain ⟨rfl, rfl⟩ := EStateM.Result.ok.inj (hbyte.symm.trans heq)
    simp only [hreserved]
    split
    · next heq => cases hskip.symm.trans heq
    · next heq =>
      obtain ⟨-, rfl⟩ := EStateM.Result.ok.inj (hskip.symm.trans heq)
      rfl

end

/-! ## Payloads -/

/-- The property holds of values, of problems other than running out of input, and of reads of fixed
length, and sequencing keeps it. -/
structure Compositional (P : {α : Type} → Decoder α → Prop) : Prop where
  of_pure : ∀ {α : Type} (a : α), P (pure a : Decoder α)
  of_throw : ∀ {α : Type} (problem : Problem), problem.endsCommands = false →
    P (throw problem : Decoder α)
  bind : ∀ {α β : Type} {first : Decoder α} {next : α → Decoder β},
    P first → (∀ a, P (next a)) → P (first >>= next)
  byte : P Decoder.byte
  pair : P Decoder.pair
  number : ∀ width, P (Decoder.number width)

/-- The type of a data block and its size, which stand in front of the contents. -/
def decodeBlockHead : Decoder (UInt8 × Nat) := do
  let mark ← Decoder.byte
  if mark = dataBlockMark then
    let type ← Decoder.byte
    let size ← Decoder.number 4
    return (type, size)
  else
    throw (.badDataBlock mark)

theorem decodeDataBlock_eq :
    decodeDataBlock = (do
      let head ← decodeBlockHead
      Decoder.skip head.2
      return dataBlock head.1 (UInt32.ofNat head.2)) := by
  unfold decodeDataBlock decodeBlockHead
  rw [bind_assoc]
  congr 1
  funext mark
  split
  · simp
  · rfl

namespace Compositional

variable {P : {α : Type} → Decoder α → Prop}

theorem decodeBlockHead (h : Compositional P) : P decodeBlockHead := by
  refine h.bind h.byte fun mark => ?_
  split
  · exact h.bind h.byte fun type => h.bind (h.number 4) fun size => h.of_pure _
  · exact h.of_throw _ rfl

theorem decodeDataBlock (h : Compositional P) (hskip : ∀ n, P (Decoder.skip n)) :
    P decodeDataBlock := by
  rw [decodeDataBlock_eq]
  exact h.bind h.decodeBlockHead fun head => h.bind (hskip head.2) fun _ => h.of_pure _

theorem decodeWrite (h : Compositional P) (write : UInt8 → UInt8 → Command) :
    P (decodeWrite write) :=
  h.bind h.pair fun _ => h.of_pure _

theorem decodePayload (h : Compositional P) {kind : Kind}
    (hblock : kind = .dataBlock → P Command.decodeDataBlock) : P (decodePayload kind) := by
  cases kind with
  | eof => exact h.of_throw _ rfl
  | gameGearStereoWrite => exact h.bind h.byte fun _ => h.of_pure _
  | psgWrite => exact h.bind h.byte fun _ => h.of_pure _
  | ym2413Write => exact h.decodeWrite _
  | ym2612Write port => exact h.decodeWrite _
  | ym2612SeekPcm => exact h.bind (h.number 4) fun _ => h.of_pure _
  | waitLong => exact h.bind (h.number 2) fun _ => h.of_pure _
  | dataBlock => exact hblock rfl
  | _ => exact h.of_pure _

theorem decodeTagged (h : Compositional P) {tag : UInt8}
    (hblock : Kind.ofTag? tag = some .dataBlock → P Command.decodeDataBlock) :
    P (decodeTagged tag) := by
  unfold Command.decodeTagged
  split
  · next kind hkind =>
    refine h.decodePayload ?_
    rintro rfl
    exact hblock hkind
  · exact h.of_throw _ rfl

end Compositional

/-! ## Kinds -/

section

variable {wide : Bool} {cursor after : Cursor} {command : Command}

theorem kind_of_decodeWrite {write : UInt8 → UInt8 → Command} {kind : Kind}
    (hkind : ∀ register value, (write register value).kind = kind)
    (h : decodeWrite write cursor = .ok command after) : command.kind = kind := by
  obtain ⟨payload, middle, -, hwrite⟩ := exists_of_bind_ok h
  obtain ⟨rfl, -⟩ := EStateM.Result.ok.inj hwrite
  exact hkind _ _

theorem kind_of_decodeDataBlock (h : decodeDataBlock cursor = .ok command after) :
    command.kind = .dataBlock := by
  rw [decodeDataBlock_eq] at h
  obtain ⟨head, afterHead, -, hcontents⟩ := exists_of_bind_ok h
  obtain ⟨-, middle, -, hblock⟩ := exists_of_bind_ok hcontents
  obtain ⟨rfl, -⟩ := EStateM.Result.ok.inj hblock
  rfl

theorem kind_of_decodePayload {kind : Kind} (h : decodePayload kind cursor = .ok command after) :
    command.kind = kind := by
  cases kind with
  | eof => cases h
  | ym2413Write => exact kind_of_decodeWrite (fun _ _ => rfl) h
  | ym2612Write port => exact kind_of_decodeWrite (fun _ _ => rfl) h
  | dataBlock => exact kind_of_decodeDataBlock h
  | wait735 | wait882 | endOfSoundData | waitShort nibble | ym2612PcmWriteWait nibble =>
    obtain ⟨rfl, -⟩ := EStateM.Result.ok.inj h
    rfl
  | gameGearStereoWrite | psgWrite | ym2612SeekPcm | waitLong =>
    obtain ⟨value, middle, -, hcommand⟩ := exists_of_bind_ok h
    obtain ⟨rfl, -⟩ := EStateM.Result.ok.inj hcommand
    rfl

theorem decodeTagged_ne_eof {tag : UInt8} (h : decodeTagged tag cursor = .ok command after) :
    command ≠ .eof := by
  rintro rfl
  cases hkind : Kind.ofTag? tag with
  | some kind =>
    simp only [decodeTagged, hkind] at h
    obtain rfl : .eof = kind := kind_of_decodePayload h
    cases h
  | none =>
    simp only [decodeTagged, hkind] at h
    cases h

theorem decode_ne_eof (h : decode wide cursor = .ok command after) : command ≠ .eof := by
  fun_induction decode wide cursor with
  | case1 => cases h
  | case2 => exact decodeTagged_ne_eof h
  | case3 => cases h
  | case4 cursor tag afterTag htag length hreserved middle hskip hsize ih => exact ih h

end

end Command
end SoundLog
