import SoundLog.Proofs.Command.Accounting
import SoundLog.Proofs.Command.Composition
import SoundLog.Proofs.Stream.Counting
import SoundLog.Proofs.Track.Calls
import SoundLog.Proofs.Track.Opening

/-!
# Offsets and bytes taken

The offset of a track, and that of a diagnostic, is the number of bytes that have come from the
source just if no fault has stopped a skip on the way: in the gap before the commands, in a
reserved opcode or in the contents of a data block. After such a fault the bytes that the skip had
dropped are missing from all offsets.
-/

namespace SoundLog

/-! ## Decoding -/

namespace Command

/-- In decoding from a cursor a fault stops a skip that has dropped bytes. -/
inductive BreaksOff (wide : Bool) : Cursor → Prop
  | reserved {cursor afterTag : Cursor} {tag : UInt8} {length : Nat}
    (hbyte : Decoder.byte cursor = .ok tag afterTag)
    (hreserved : reservedLength? wide tag = some length)
    (hbreaks : afterTag.source.BreaksWithin length) : BreaksOff wide cursor
  | contents {cursor afterTag afterHead : Cursor} {type : UInt8} {size : Nat}
    (hbyte : Decoder.byte cursor = .ok Kind.dataBlock.tag afterTag)
    (hhead : decodeBlockHead afterTag = .ok (type, size) afterHead)
    (hbreaks : afterHead.source.BreaksWithin size) : BreaksOff wide cursor
  | behind {cursor afterTag after : Cursor} {tag : UInt8} {length : Nat}
    (hbyte : Decoder.byte cursor = .ok tag afterTag)
    (hreserved : reservedLength? wide tag = some length)
    (hskip : Decoder.skip length afterTag = .ok () after)
    (hrest : BreaksOff wide after) : BreaksOff wide cursor

theorem counting_compositional : Compositional (Counting ·) where
  of_pure := Counting.of_pure
  of_throw problem _ := Counting.of_throw problem
  bind := Counting.bind
  byte := Reader.byte_counting.adaptExcept _
  pair := Reader.pair_counting.adaptExcept _
  number width := (Reader.number_counting width).adaptExcept _

variable {wide : Bool} {cursor afterTag after : Cursor} {tag : UInt8} {length : Nat}
  {problem : Problem}

theorem skip_counts_iff (n : Nat) (cursor : Cursor) :
    Cursor.Counts cursor (Cursor.ofResult (Decoder.skip n cursor)) ↔
      ¬ cursor.source.BreaksWithin n := by
  rw [← Reader.skip_counts_iff]
  unfold Decoder.skip Decoder.ofReader EStateM.adaptExcept
  cases Reader.skip n cursor <;> rfl

theorem counts_of_byte (hbyte : Decoder.byte cursor = .ok tag afterTag) :
    Cursor.Counts cursor afterTag := by
  have h := counting_compositional.byte cursor
  rwa [hbyte] at h

theorem counts_of_skip (hskip : Decoder.skip length cursor = .ok () after) :
    Cursor.Counts cursor after := by
  unfold Decoder.skip Decoder.ofReader EStateM.adaptExcept at hskip
  split at hskip
  · cases hskip
  · next heq =>
    cases hskip
    exact Reader.counts_of_skip heq

theorem breaksOff_of_reserved (hbyte : Decoder.byte cursor = .ok tag afterTag)
    (hreserved : reservedLength? wide tag = some length) :
    BreaksOff wide cursor ↔ afterTag.source.BreaksWithin length ∨
      ∃ after, Decoder.skip length afterTag = .ok () after ∧ BreaksOff wide after := by
  constructor
  · intro h
    cases h with
    | reserved hbyte' hreserved' hbreaks =>
      obtain ⟨rfl, rfl⟩ := EStateM.Result.ok.inj (hbyte.symm.trans hbyte')
      obtain rfl := Option.some.inj (hreserved.symm.trans hreserved')
      exact Or.inl hbreaks
    | contents hbyte' =>
      obtain ⟨rfl, rfl⟩ := EStateM.Result.ok.inj (hbyte.symm.trans hbyte')
      rw [Kind.reservedLength?_tag] at hreserved
      cases hreserved
    | behind hbyte' hreserved' hskip hrest =>
      obtain ⟨rfl, rfl⟩ := EStateM.Result.ok.inj (hbyte.symm.trans hbyte')
      obtain rfl := Option.some.inj (hreserved.symm.trans hreserved')
      exact Or.inr ⟨_, hskip, hrest⟩
  · rintro (hbreaks | ⟨after, hskip, hrest⟩)
    · exact .reserved hbyte hreserved hbreaks
    · exact .behind hbyte hreserved hskip hrest

theorem breaksOff_of_tag (hbyte : Decoder.byte cursor = .ok tag afterTag)
    (hreserved : reservedLength? wide tag = none) :
    BreaksOff wide cursor ↔ tag = Kind.dataBlock.tag ∧
      ∃ head place, decodeBlockHead afterTag = .ok head place ∧
        place.source.BreaksWithin head.2 := by
  constructor
  · intro h
    cases h with
    | reserved hbyte' hreserved' =>
      obtain ⟨rfl, rfl⟩ := EStateM.Result.ok.inj (hbyte.symm.trans hbyte')
      cases hreserved.symm.trans hreserved'
    | contents hbyte' hhead hbreaks =>
      obtain ⟨rfl, rfl⟩ := EStateM.Result.ok.inj (hbyte.symm.trans hbyte')
      exact ⟨rfl, _, _, hhead, hbreaks⟩
    | behind hbyte' hreserved' =>
      obtain ⟨rfl, rfl⟩ := EStateM.Result.ok.inj (hbyte.symm.trans hbyte')
      cases hreserved.symm.trans hreserved'
  · rintro ⟨rfl, head, place, hhead, hbreaks⟩
    exact .contents hbyte hhead hbreaks

theorem decodeDataBlock_counts_iff (cursor : Cursor) :
    Cursor.Counts cursor (Cursor.ofResult (decodeDataBlock cursor)) ↔
      ¬ ∃ head place, decodeBlockHead cursor = .ok head place ∧
        place.source.BreaksWithin head.2 := by
  have hhead := counting_compositional.decodeBlockHead cursor
  rw [decodeDataBlock_eq]
  cases hresult : decodeBlockHead cursor with
  | error problem after =>
    rw [hresult] at hhead
    rw [bind_of_error hresult]
    exact iff_of_true hhead (by simp)
  | ok head place =>
    rw [hresult] at hhead
    have hskip := skip_counts_iff head.2 place
    rw [bind_of_ok hresult, hhead.iff_of_left]
    have hbreaks : (∃ head' place', (EStateM.Result.ok head place : EStateM.Result Problem _ _) =
        .ok head' place' ∧ place'.source.BreaksWithin head'.2) ↔
          place.source.BreaksWithin head.2 := by
      constructor
      · rintro ⟨_, _, heq, h⟩
        obtain ⟨rfl, rfl⟩ := EStateM.Result.ok.inj heq
        exact h
      · intro h
        exact ⟨head, place, rfl, h⟩
    rw [hbreaks, ← hskip]
    cases hdropped : Decoder.skip head.2 place with
    | ok value after => rw [bind_of_ok hdropped]; rfl
    | error problem after => rw [bind_of_error hdropped]; rfl

theorem decodeTagged_counts_iff (tag : UInt8) (cursor : Cursor) :
    Cursor.Counts cursor (Cursor.ofResult (decodeTagged tag cursor)) ↔
      ¬ (tag = Kind.dataBlock.tag ∧ ∃ head place, decodeBlockHead cursor = .ok head place ∧
        place.source.BreaksWithin head.2) := by
  by_cases htag : tag = Kind.dataBlock.tag
  · subst htag
    have hdecode : decodeTagged Kind.dataBlock.tag = decodeDataBlock := by
      simp only [decodeTagged, Kind.ofTag?_tag, decodePayload]
    rw [hdecode, decodeDataBlock_counts_iff, and_iff_right rfl]
  · have hcounting : Counting (decodeTagged tag) := by
      refine counting_compositional.decodeTagged ?_
      intro hkind
      exact absurd (Kind.tag_of_ofTag? hkind).symm htag
    exact iff_of_true (hcounting cursor) fun h => htag h.1

/-- The offset behind a command, or behind what is wrong with it, is right unless a fault has
stopped a skip on the way. -/
theorem decode_counts_iff (wide : Bool) (cursor : Cursor) :
    Cursor.Counts cursor (Cursor.ofResult (decode wide cursor)) ↔ ¬ BreaksOff wide cursor := by
  -- along the reserved opcodes; only a skip can lose count, so all other steps drop out of the iff
  fun_induction decode wide cursor with
  | case1 cursor problem after hbyte =>
    have h := counting_compositional.byte cursor
    rw [hbyte] at h
    refine iff_of_true h ?_
    rintro (⟨hother⟩ | ⟨hother⟩ | ⟨hother⟩) <;> cases hbyte.symm.trans hother
  | case2 cursor tag afterTag hbyte hreserved =>
    rw [(counts_of_byte hbyte).iff_of_left, decodeTagged_counts_iff,
      breaksOff_of_tag hbyte hreserved]
  | case3 cursor tag afterTag hbyte length hreserved problem after hskip =>
    have hcounts := skip_counts_iff length afterTag
    rw [hskip, Cursor.ofResult_error] at hcounts
    rw [Cursor.ofResult_error, (counts_of_byte hbyte).iff_of_left, hcounts,
      breaksOff_of_reserved hbyte hreserved, hskip]
    simp
  | case4 cursor tag afterTag hbyte length hreserved after hskip hsize ih =>
    have hdropped := counts_of_skip hskip
    have hcounts := skip_counts_iff length afterTag
    rw [hskip] at hcounts
    rw [((counts_of_byte hbyte).trans hdropped).iff_of_left, ih,
      breaksOff_of_reserved hbyte hreserved, hskip]
    simp [hcounts.mp hdropped]

end Command

/-! ## Opening -/

namespace Header

theorem readFields_counts (fields : List Field) (cursor : Cursor) :
    Cursor.Advances cursor (readFields fields cursor).cursor ∧
      Cursor.Counts cursor (readFields fields cursor).cursor := by
  induction fields generalizing cursor with
  | nil => exact ⟨.refl cursor, rfl⟩
  | cons field fields ih =>
    have hmoves := Reader.collect_moves field.length field.length cursor
    have hcounts := Reader.collect_counting field.length field.length cursor
    unfold readFields Reader.bytes
    cases hresult : Reader.collect field.length field.length cursor with
    | error failure after =>
      rw [hresult] at hmoves hcounts
      exact ⟨hmoves, hcounts⟩
    | ok bytes after =>
      rw [hresult] at hmoves hcounts
      cases hobjection : objection? field bytes with
      | some problem =>
        simp only [hobjection]
        exact ⟨hmoves, hcounts⟩
      | none =>
        simp only [hobjection]
        exact ⟨hmoves.trans (ih after).1, hcounts.trans (ih after).2⟩

end Header

namespace Track

variable {track : Track} {source : Source}

/-- Where opening a log has led, whether it succeeds or not. -/
def openCursor (source : Source) : Cursor :=
  match (Header.read source).problem with
  | some _ => (Header.read source).cursor
  | none => Cursor.ofResult (Reader.skip (gap (Header.read source)) (Header.read source).cursor)

/-- A fault stops the skip to the commands of a log. -/
def GapBreaksOff (source : Source) : Prop :=
  (Header.read source).problem = none ∧
    (Header.read source).cursor.source.BreaksWithin (gap (Header.read source))

theorem openCursor_advances (source : Source) : Cursor.Advances { source } (openCursor source) := by
  have hread : Cursor.Advances { source } (Header.read source).cursor :=
    (Header.readFields_counts Field.all { source }).1
  unfold openCursor
  split
  · exact hread
  · exact hread.trans (Reader.skip_moves _ _)

theorem openCursor_counts_iff (source : Source) :
    Cursor.Counts { source } (openCursor source) ↔ ¬ GapBreaksOff source := by
  have hread : Cursor.Counts { source } (Header.read source).cursor :=
    (Header.readFields_counts Field.all { source }).2
  unfold openCursor GapBreaksOff
  cases (Header.read source).problem with
  | some problem => exact iff_of_true hread (by simp)
  | none =>
    simp only [true_and]
    rw [hread.iff_of_left, Reader.skip_counts_iff]

/-- Opening gives a track that stands where the skip has led, with all that was taken counted, or a
diagnostic that tells where opening has ended. -/
theorem open_cursor_cases (path : Option String) (source : Source) :
    (∃ track, Track.open path source = .ok track ∧ track.cursor = openCursor source ∧
        Cursor.Counts { source } (openCursor source)) ∨
      ∃ d, Track.open path source = .error d ∧ d.offset = (openCursor source).offset := by
  have hread : Cursor.Counts { source } (Header.read source).cursor :=
    (Header.readFields_counts Field.all { source }).2
  cases hproblem : (Header.read source).problem with
  | some problem =>
    refine Or.inr ⟨_, open_of_problem hproblem, ?_⟩
    simp only [openCursor, hproblem]
  | none =>
    have hcursor : openCursor source =
        Cursor.ofResult (Reader.skip (gap (Header.read source)) (Header.read source).cursor) := by
      simp only [openCursor, hproblem]
    cases hskip : Reader.skip (gap (Header.read source)) (Header.read source).cursor with
    | ok value cursor =>
      rw [hskip, Cursor.ofResult_ok] at hcursor
      rw [hcursor]
      exact Or.inl ⟨_, open_of_skip hproblem hskip, rfl, hread.trans (Reader.counts_of_skip hskip)⟩
    | error failure cursor =>
      rw [hskip, Cursor.ofResult_error] at hcursor
      rw [hcursor]
      exact Or.inr ⟨_, open_of_skip_error hproblem hskip, rfl⟩

/-! ## Calls -/

/-- A fault stops a skip in a call of a track. -/
def BreaksOff (track : Track) : Prop :=
  track.finished = false ∧ Command.BreaksOff track.header.hasWideReserved track.cursor

theorem next_counts_iff (track : Track) :
    Cursor.Counts track.cursor track.next.2.cursor ↔ ¬ track.BreaksOff := by
  have hdecode := Command.decode_counts_iff track.header.hasWideReserved track.cursor
  unfold BreaksOff
  cases hfinished : track.finished with
  | true =>
    rw [next_of_finished hfinished]
    exact iff_of_true rfl (by simp)
  | false =>
    rw [and_iff_right rfl, ← hdecode, cursor_next hfinished]

theorem offset_of_next {d : Diagnostic} (h : track.next.1 = .error d) :
    d.offset = track.next.2.offset := by
  cases track.call_cases with
  | behindEnd hfinished hnext =>
    rw [hnext] at h
    cases h
  | command hfinished hdecode hne hnext =>
    rw [hnext] at h
    cases h
  | exhausted hfinished hdecode hproblem hnext =>
    rw [hnext] at h
    cases h
  | problem hfinished hdecode hproblem hnext =>
    rw [hnext] at h ⊢
    cases h
    rfl

theorem after_advances (track : Track) (n : Nat) :
    Cursor.Advances track.cursor (track.after n).cursor := by
  induction n generalizing track with
  | zero => exact .refl _
  | succ n ih => exact track.next_advances.trans (ih track.next.2)

theorem after_counts_iff (track : Track) (n : Nat) :
    Cursor.Counts track.cursor (track.after n).cursor ↔
      ∀ step ∈ track.calls n, ¬ step.before.BreaksOff := by
  induction n generalizing track with
  | zero => exact iff_of_true rfl (by simp [calls])
  | succ n ih =>
    rw [after, Cursor.Counts.iff_and track.next_advances (after_advances _ n), next_counts_iff, ih,
      calls, List.forall_mem_cons]
    rfl

/-- The offset of a diagnostic, and that of a track after any calls, tells how many bytes have come
from the source just if no fault has stopped a skip by then. -/
theorem offset_eq_handedOut_iff (path : Option String) (source : Source) :
    (∀ d, Track.open path source = .error d →
      (d.offset = source.handedOut (openCursor source).source ↔ ¬ GapBreaksOff source)) ∧
    ∀ track, Track.open path source = .ok track →
      track.offset = source.handedOut track.cursor.source ∧
      ∀ n,
        ((track.after n).offset = source.handedOut (track.after n).cursor.source ↔
          ∀ step ∈ track.calls n, ¬ step.before.BreaksOff) ∧
        ∀ d, (track.after n).next.1 = .error d →
          (d.offset = source.handedOut (track.after (n + 1)).cursor.source ↔
            ∀ step ∈ track.calls (n + 1), ¬ step.before.BreaksOff) := by
  have hopening := openCursor_advances source
  obtain ⟨track, hopen, hcursor, hcounts⟩ | ⟨d, hopen, hoffset⟩ := open_cursor_cases path source
  · constructor
    · intro d hd
      cases hopen.symm.trans hd
    intro other hother
    obtain rfl := Except.ok.inj (hopen.symm.trans hother)
    rw [← hcursor] at hopening hcounts
    have hafter : ∀ n, (track.after n).offset = source.handedOut (track.after n).cursor.source ↔
        ∀ step ∈ track.calls n, ¬ step.before.BreaksOff := by
      intro n
      have hadvances := hopening.trans (after_advances track n)
      rw [← after_counts_iff, ← hcounts.iff_of_left]
      exact (Cursor.Counts.iff_handedOut hadvances).symm
    refine ⟨(Cursor.Counts.iff_handedOut hopening).mp hcounts, ?_⟩
    intro n
    refine ⟨hafter n, ?_⟩
    intro d hnext
    rw [offset_of_next hnext, ← after_succ]
    exact hafter (n + 1)
  · constructor
    · intro other hother
      obtain rfl := Except.error.inj (hopen.symm.trans hother)
      rw [hoffset, ← Cursor.Counts.iff_handedOut hopening, openCursor_counts_iff]
    · intro track htrack
      cases hopen.symm.trans htrack

/-- A fault stops a data block after two of its four bytes, which the offsets do not count. -/
theorem offset_ne_handedOut :
    let log : List UInt8 := ({ version := 0x150 } : Header).toBytes ++
      [0x67, 0x66, 0x01, 0x04, 0x00, 0x00, 0x00, 0xAA, 0xBB]
    let source : Source := Source.ofBytes log ++ [.fault ⟨.other, "read failed"⟩]
    ∃ track d, Track.open none source = .ok track ∧ track.next.1 = .error d ∧
      source.handedOut track.next.2.cursor.source = 73 ∧
      track.next.2.offset = 71 ∧ d.offset = 71 := by
  intro log source
  let track : Track :=
    { path := none
      header := { eofOffset := 4, version := 0x150, dataOffset := 12 }
      cursor := ⟨[.chunk 0x67 [0x66, 0x01, 0x04, 0x00, 0x00, 0x00, 0xAA, 0xBB],
        .fault ⟨.other, "read failed"⟩], 64⟩ }
  have hopen : Track.open none source = .ok track := by cbv
  have hnext : track.next = (.error ⟨71, none, .unreadable (.fault ⟨.other, "read failed"⟩)⟩,
      { track with cursor := ⟨[], 71⟩ }) := by cbv
  refine ⟨track, _, hopen, by rw [hnext], ?_, by rw [hnext]; rfl, rfl⟩
  rw [hnext]
  decide

end Track
end SoundLog
