import SoundLog.Proofs.Command.Stored
import SoundLog.Proofs.Stream.Footprint
import SoundLog.Proofs.Track.Pieces

/-!
# The end of a track

A track has finished when it has given `endOfSoundData` or `eof`. From then on it gives `eof`
without asking the source for anything, so nothing that follows the last command can show. Before
that, it gives `eof` only where the source gives out.
-/

namespace SoundLog

/-! ## Decoding -/

namespace Command

variable {wide : Bool} {cursor after : Cursor}

theorem exhausted_unreadable (failure : Failure) :
    Exhausted (.unreadable failure) ↔ Reader.RunsOut failure := decide_eq_true_iff

theorem byte_footprint (cursor : Cursor) : Footprint Exhausted Decoder.byte cursor :=
  (Reader.byte_footprint cursor).adaptExcept _ exhausted_unreadable

theorem arrivals_of_byte {b : UInt8} (h : Decoder.byte cursor = .ok b after) :
    cursor.source.arrivals = .byte b :: after.source.arrivals := by
  simp only [Decoder.byte, Decoder.ofReader, EStateM.adaptExcept, Reader.byte] at h
  cases hpull : cursor.source.pull with
  | byte value rest =>
    simp only [hpull] at h
    cases h
    exact Source.arrivals_of_pull_byte hpull
  | ended rest => simp [hpull] at h
  | fault f rest => simp [hpull] at h

theorem skip_footprint (n : Nat) (cursor : Cursor) : Footprint Exhausted (Decoder.skip n) cursor :=
  (Reader.skip_footprint n cursor).adaptExcept _ exhausted_unreadable

theorem footprint_compositional :
    Compositional fun step => ∀ cursor, Footprint Exhausted step cursor where
  of_pure := Footprint.of_pure
  of_throw problem hproblem cursor := by
    have hshort : ¬ Exhausted problem := Bool.eq_false_iff.mp hproblem
    exact Footprint.of_throw hshort cursor
  bind hfirst hnext cursor := (hfirst cursor).bind fun a after _ => hnext a after
  byte := byte_footprint
  pair cursor := (Reader.pair_footprint cursor).adaptExcept _ exhausted_unreadable
  number width cursor := (Reader.number_footprint width cursor).adaptExcept _ exhausted_unreadable

theorem decodeTagged_footprint (tag : UInt8) (cursor : Cursor) :
    Footprint Exhausted (decodeTagged tag) cursor := by
  refine footprint_compositional.decodeTagged (fun _ => ?_) cursor
  exact footprint_compositional.decodeDataBlock skip_footprint

theorem decode_eq (wide : Bool) :
    decode wide = Decoder.byte >>= fun tag =>
      match reservedLength? wide tag with
      | none => decodeTagged tag
      | some length => (Decoder.skip length >>= fun _ => decode wide : Decoder Command) := by
  funext cursor
  cases hbyte : Decoder.byte cursor with
  | error problem after => rw [decode_of_byte_error hbyte, bind_of_error hbyte]
  | ok tag afterTag =>
    rw [bind_of_ok hbyte]
    cases hreserved : reservedLength? wide tag with
    | none => rw [decode_of_tag hbyte hreserved]
    | some length =>
      cases hskip : Decoder.skip length afterTag with
      | error problem after =>
        rw [decode_of_skip_error hbyte hreserved hskip]
        exact (bind_of_error hskip).symm
      | ok value after =>
        have hrest : (Decoder.skip length >>= fun _ => decode wide : Decoder Command) afterTag =
            decode wide after := bind_of_ok hskip
        rw [decode_of_skip hbyte hreserved hskip]
        exact hrest.symm

theorem decode_footprint (wide : Bool) (cursor : Cursor) :
    Footprint Exhausted (decode wide) cursor := by
  -- on the bytes left, for behind a reserved opcode decoding starts anew
  induction hsize : cursor.source.size using Nat.strongRecOn generalizing cursor with
  | ind size ih =>
    rw [decode_eq]
    refine (byte_footprint cursor).bind fun tag afterTag hbyte => ?_
    cases reservedLength? wide tag with
    | none => exact decodeTagged_footprint tag afterTag
    | some length =>
      refine (skip_footprint length afterTag).bind fun _ after hskip => ?_
      have htaken := size_of_byte hbyte
      have hskipped := size_of_skip hskip
      exact ih after.source.size (by omega) after rfl

/-- The command that ends the sound data is its tag, and behind the tag nothing is taken. -/
theorem arrivals_of_endOfSoundData (h : decode wide cursor = .ok .endOfSoundData after) :
    ∃ taken : List UInt8, cursor.source.arrivals =
      taken.map .byte ++ .byte Kind.endOfSoundData.tag :: after.source.arrivals := by
  fun_induction decode wide cursor with
  | case1 => cases h
  | case3 => cases h
  | case2 cursor tag afterTag hbyte hreserved =>
    cases hkind : Kind.ofTag? tag with
    | none =>
      simp only [decodeTagged, hkind] at h
      cases h
    | some kind =>
      simp only [decodeTagged, hkind] at h
      obtain rfl : .endOfSoundData = kind := kind_of_decodePayload h
      obtain ⟨-, rfl⟩ := EStateM.Result.ok.inj h
      obtain rfl := Kind.tag_of_ofTag? hkind
      exact ⟨[], arrivals_of_byte hbyte⟩
  | case4 cursor tag afterTag hbyte length hreserved middle hskip hsize ih =>
    obtain ⟨skipped, hskipped⟩ := (skip_footprint length afterTag).exists_taken hskip
    obtain ⟨taken, htaken⟩ := ih h
    refine ⟨tag :: (skipped ++ taken), ?_⟩
    rw [arrivals_of_byte hbyte, hskipped.arrivals_of_ok hskip, htaken, List.map_cons,
      List.map_append, List.cons_append, List.append_assoc]

end Command

/-! ## Opening -/

namespace Header

/-- Reading a whole header takes some arrivals, and every source that begins with them has the same
header. -/
theorem readFields_beside (fields : List Field) {cursor : Cursor}
    (hread : (readFields fields cursor).problem = none) :
    ∃ used : List Arrival,
      cursor.source.arrivals = used ++ (readFields fields cursor).cursor.source.arrivals ∧
        ∀ other later, Cursor.Beside (used ++ later) cursor other →
          (readFields fields other).problem = none ∧
            (readFields fields other).accepted = (readFields fields cursor).accepted ∧
            Cursor.Beside later (readFields fields cursor).cursor
              (readFields fields other).cursor := by
  induction fields generalizing cursor with
  | nil => exact ⟨[], rfl, fun other later hother => ⟨rfl, rfl, hother⟩⟩
  | cons field fields ih =>
    unfold readFields at hread
    cases hbytes : Reader.bytes field.length cursor with
    | error failure after =>
      rw [hbytes] at hread
      cases hread
    | ok bytes after =>
      cases hobjection : objection? field bytes with
      | some problem =>
        simp only [hbytes, hobjection] at hread
        cases hread
      | none =>
        simp only [hbytes, hobjection] at hread
        obtain ⟨taken, huses⟩ := (Reader.collect_footprint _ _ cursor).exists_taken hbytes
        obtain ⟨used, harrivals, hagain⟩ := ih hread
        refine ⟨taken.map .byte ++ used, ?_, ?_⟩
        · rw [huses.arrivals_of_ok hbytes, harrivals, List.append_assoc]
          simp only [readFields, hbytes, hobjection]
        · intro other later hother
          rw [List.append_assoc] at hother
          obtain ⟨after', hbytes', hafter⟩ := huses.exists_ok hbytes hother
          have hbytes' : Reader.bytes field.length other = .ok bytes after' := hbytes'
          obtain ⟨hproblem, haccepted, hcursor⟩ := hagain after' later hafter
          simp only [readFields, hbytes, hbytes', hobjection]
          exact ⟨hproblem, by rw [haccepted], hcursor⟩

end Header

namespace Track

open Command

/-- The tracks differ only in what is to come, which is `later` for the other one. -/
structure Beside (later : List Arrival) (track other : Track) : Prop where
  path_eq : other.path = track.path
  header_eq : other.header = track.header
  cursor : Cursor.Beside later track.cursor other.cursor
  finished_eq : other.finished = track.finished

/-- Opening a log takes some arrivals, and every source that begins with them can be opened. -/
theorem open_beside {path : Option String} {source : Source} {track : Track}
    (hopen : Track.open path source = .ok track) :
    ∃ used : List Arrival, source.arrivals = used ++ track.cursor.source.arrivals ∧
      ∀ (other : Source) (later : List Arrival), other.arrivals = used ++ later →
        ∃ track', Track.open path other = .ok track' ∧ track.Beside later track' := by
  obtain ⟨hproblem, cursor, hskip, rfl⟩ := exists_of_open hopen
  obtain ⟨head, hhead, hagain⟩ := Header.readFields_beside Field.all hproblem
  obtain ⟨taken, huses⟩ := (Reader.skip_footprint _ _).exists_taken hskip
  refine ⟨head ++ taken.map .byte, ?_, ?_⟩
  · rw [List.append_assoc, ← huses.arrivals_of_ok hskip]
    exact hhead
  · intro other later hother
    rw [List.append_assoc] at hother
    obtain ⟨hproblem', haccepted, hcursor⟩ := hagain { source := other } _ ⟨rfl, hother⟩
    have hgap : gap (Header.read other) = gap (Header.read source) := by
      unfold gap Header.read
      rw [haccepted, hcursor.offset_eq]
    obtain ⟨cursor', hskip', hafter⟩ := huses.exists_ok hskip hcursor
    rw [← hgap] at hskip'
    refine ⟨_, open_of_skip hproblem' hskip', rfl, ?_, hafter, rfl⟩
    exact congrArg Header.ofBytes haccepted

/-! ## Calls -/

section

variable {track : Track} {n : Nat}

/-- A call that does not give `eof` takes some arrivals, and on every source that begins with them
it gives the same. -/
theorem next_beside (heof : track.next.1 ≠ .ok .eof) :
    ∃ used : List Arrival,
      track.cursor.source.arrivals = used ++ track.next.2.cursor.source.arrivals ∧
        ∀ other later, track.Beside (used ++ later) other →
          other.next.1 = track.next.1 ∧ track.next.2.Beside later other.next.2 := by
  have hfootprint := decode_footprint track.header.hasWideReserved track.cursor
  cases track.call_cases with
  | behindEnd hfinished hnext =>
    rw [hnext] at heof
    exact absurd rfl heof
  | exhausted hfinished hdecode hproblem hnext =>
    rw [hnext] at heof
    exact absurd rfl heof
  | command hfinished hdecode hne hnext =>
    obtain ⟨taken, huses⟩ := hfootprint.exists_taken hdecode
    refine ⟨taken.map .byte, ?_, ?_⟩
    · rw [hnext]
      exact huses.arrivals_of_ok hdecode
    · intro other later hother
      obtain ⟨after', hdecode', hafter⟩ := huses.exists_ok hdecode hother.cursor
      rw [← hother.header_eq] at hdecode'
      rw [hnext, next_of_ok (hother.finished_eq.trans hfinished) hdecode']
      exact ⟨rfl, hother.path_eq, hother.header_eq, hafter, rfl⟩
  | problem hfinished hdecode hproblem hnext =>
    obtain ⟨used, huses⟩ := hfootprint.exists_used hdecode hproblem
    refine ⟨used, ?_, ?_⟩
    · rw [hnext]
      exact huses.arrivals_of_error hdecode
    · intro other later hother
      obtain ⟨after', hdecode', hafter⟩ := huses.exists_error hdecode hother.cursor
      rw [← hother.header_eq] at hdecode'
      rw [hnext, next_of_problem (hother.finished_eq.trans hfinished) hdecode' hproblem]
      refine ⟨?_, hother.path_eq, hother.header_eq, hafter, hother.finished_eq⟩
      rw [hother.path_eq, hafter.offset_eq]

theorem seen_next {later : List Arrival} {other : Track} (houtcome : other.next.1 = track.next.1)
    (hnext : track.next.2.Beside later other.next.2) : other.step.seen = track.step.seen :=
  Prod.ext houtcome (Prod.ext hnext.cursor.offset_eq hnext.finished_eq)

/-- The arrival of the tag that ends the sound data, before what is to come. -/
def sealed (later : List Arrival) : List Arrival := .byte Kind.endOfSoundData.tag :: later

/-- The call that ends the sound data takes the tag of its command last. -/
theorem arrivals_of_end (hend : track.next.1 = .ok .endOfSoundData) :
    ∃ taken : List UInt8, track.cursor.source.arrivals =
      taken.map .byte ++ sealed track.next.2.cursor.source.arrivals := by
  cases track.call_cases with
  | command hfinished hdecode hne hnext =>
    rw [hnext] at hend
    obtain rfl := Except.ok.inj hend
    rw [hnext]
    exact arrivals_of_endOfSoundData hdecode
  | behindEnd hfinished hnext | exhausted hfinished hdecode hproblem hnext
  | problem hfinished hdecode hproblem hnext =>
    rw [hnext] at hend
    cases hend

/-- Calls that lead to the end of the sound data take some arrivals, the tag last, and on every
source that begins with them these calls and all later ones are the same. -/
theorem calls_beside (hend : (track.after n).next.1 = .ok .endOfSoundData) :
    ∃ front : List Arrival,
      track.cursor.source.arrivals = front ++ sealed (track.after (n + 1)).cursor.source.arrivals ∧
        ∀ other later, track.Beside (front ++ sealed later) other →
          ∀ k, (other.calls k).map Step.seen = (track.calls k).map Step.seen := by
  induction n generalizing track with
  | zero =>
    have hend : track.next.1 = .ok .endOfSoundData := hend
    obtain ⟨used, harrivals, hagain⟩ := next_beside (by rw [hend]; decide)
    obtain ⟨taken, htaken⟩ := arrivals_of_end hend
    have hused : used = taken.map .byte ++ [.byte Kind.endOfSoundData.tag] := by
      apply List.append_cancel_right
      rw [← harrivals, htaken, List.append_assoc]
      rfl
    refine ⟨taken.map .byte, htaken, ?_⟩
    intro other later hother k
    rw [sealed, ← List.singleton_append, ← List.append_assoc, ← hused] at hother
    obtain ⟨houtcome, hnext⟩ := hagain other later hother
    cases k with
    | zero => rfl
    | succ k =>
      have hfinished : track.next.2.finished = true :=
        track.finished_next_iff.mpr (Or.inr (Or.inl hend))
      have hfinished' : other.next.2.finished = true := hnext.finished_eq.trans hfinished
      have hlater : (other.step.after.calls k).map Step.seen =
          (track.step.after.calls k).map Step.seen := by
        rw [step, step, calls_of_finished hfinished, calls_of_finished hfinished',
          List.map_replicate, List.map_replicate]
        simp only [Step.seen, offset, hnext.cursor.offset_eq, hnext.finished_eq]
      rw [calls, calls, List.map_cons, List.map_cons, seen_next houtcome hnext, hlater]
  | succ n ih =>
    have heof : track.next.1 ≠ .ok .eof := by
      intro heof
      have hfinished : track.next.2.finished = true :=
        track.finished_next_iff.mpr (Or.inr (Or.inr heof))
      rw [after, after_of_finished hfinished, next_of_finished hfinished] at hend
      cases hend
    have hrest : (track.next.2.after n).next.1 = .ok .endOfSoundData := hend
    obtain ⟨used, harrivals, hagain⟩ := next_beside heof
    obtain ⟨front, hfront, hlater⟩ := ih hrest
    refine ⟨used ++ front, ?_, ?_⟩
    · rw [harrivals, hfront, List.append_assoc]
      rfl
    · intro other later hother k
      rw [List.append_assoc] at hother
      obtain ⟨houtcome, hnext⟩ := hagain other _ hother
      cases k with
      | zero => rfl
      | succ k =>
        have hcalls := hlater other.next.2 later hnext k
        rw [calls, calls, List.map_cons, List.map_cons, seen_next houtcome hnext]
        exact congrArg _ hcalls

/-- A call gives `eof` behind the end, or where the source gives out. -/
theorem runsDry_of_eof (heof : track.next.1 = .ok .eof) :
    track.finished = true ∨ track.cursor.RunsDry track.next.2.cursor := by
  cases track.call_cases with
  | behindEnd hfinished hnext => exact Or.inl hfinished
  | command hfinished hdecode hne hnext =>
    rw [hnext] at heof
    exact absurd (Except.ok.inj heof) hne
  | exhausted hfinished hdecode hproblem hnext =>
    rw [hnext]
    exact Or.inr ((decode_footprint _ _).runsDry hdecode hproblem)
  | problem hfinished hdecode hproblem hnext =>
    rw [hnext] at heof
    cases heof

end

theorem finished_after_iff (track : Track) (n : Nat) :
    (track.after n).finished = true ↔ track.finished = true ∨
      ∃ step ∈ track.calls n, step.outcome = .ok .endOfSoundData ∨ step.outcome = .ok .eof := by
  induction n generalizing track with
  | zero => simp [after, calls]
  | succ n ih =>
    rw [after, ih, finished_next_iff, calls, List.exists_mem_cons_iff, or_assoc]
    rfl

/-! ## The end -/

/-- A track has finished just if some call has given `endOfSoundData` or `eof`. From then on every
call gives `eof` and leaves the track and its source as they are. Before that, `eof` is given only
where the source gives out. And once the sound data has ended, nothing that follows its last tag can
be seen in any call, whatever it is. -/
theorem end_is_final {path : Option String} {source : Source} {track : Track}
    (hopen : Track.open path source = .ok track) :
    (∀ n, (track.after n).finished = true ↔
      ∃ step ∈ track.calls n, step.outcome = .ok .endOfSoundData ∨ step.outcome = .ok .eof) ∧
    (∀ n, (track.after n).finished = true →
      ∀ k, (track.after n).calls k = List.replicate k ⟨track.after n, .ok .eof, track.after n⟩) ∧
    (∀ n, (track.after n).next.1 = .ok .eof →
      (track.after n).finished = true ∨
        (track.after n).cursor.RunsDry (track.after (n + 1)).cursor) ∧
    ∀ n, (track.after n).next.1 = .ok .endOfSoundData →
      ∃ front : List Arrival,
        source.arrivals = front ++ sealed (track.after (n + 1)).cursor.source.arrivals ∧
          ∀ (other : Source) (later : List Arrival), other.arrivals = front ++ sealed later →
            ∀ k, transcript path other k = transcript path source k := by
  have hstart : track.finished = false := by
    obtain ⟨-, cursor, -, rfl⟩ := exists_of_open hopen
    rfl
  refine ⟨?_, ?_, ?_, ?_⟩
  · intro n
    rw [finished_after_iff, hstart]
    simp only [Bool.false_eq_true, false_or]
  · intro n hfinished
    exact calls_of_finished hfinished
  · intro n heof
    rw [after_succ]
    exact runsDry_of_eof heof
  · intro n hend
    obtain ⟨head, hhead, hopens⟩ := open_beside hopen
    obtain ⟨front, hfront, hcalls⟩ := calls_beside hend
    refine ⟨head ++ front, ?_, ?_⟩
    · rw [hhead, hfront, List.append_assoc]
    · intro other later hother k
      rw [List.append_assoc] at hother
      obtain ⟨track', hopen', hbeside⟩ := hopens other _ hother
      simp only [transcript, hopen, hopen', hbeside.header_eq, hcalls track' later hbeside k, offset,
        hbeside.cursor.offset_eq]

/-- A log with the last tag's byte in a write and in a data block and with a fault between them,
followed by more bytes or by another fault. -/
theorem end_is_final_behind_fault :
    let fault : Fault := ⟨.other, "bad sector"⟩
    let log : List UInt8 := ({ version := 0x150 } : Header).toBytes ++ [0x50, 0x66]
    let block : List UInt8 := [0x67, 0x66, 0x01, 0x01, 0x00, 0x00, 0x00, 0x66]
    let source : Source :=
      Source.ofBytes log ++ .fault fault :: Source.ofBytes (block ++ [0x66, 0x47, 0x64, 0x33])
    let other : Source :=
      Source.ofBytes log ++ .fault fault :: (Source.ofBytes (block ++ [0x66]) ++ [.fault fault])
    let header : Header := { eofOffset := 4, version := 0x150, dataOffset := 12 }
    ∃ track, Track.open none source = .ok track ∧
      (track.after 3).next.1 = .ok .endOfSoundData ∧
      transcript none other 6 = transcript none source 6 ∧
      transcript none source 6 = .ok
        { header
          start := 64
          calls :=
            [(.ok (.psgWrite 0x66), 66, false),
              (.error ⟨66, none, .unreadable (.fault fault)⟩, 66, false),
              (.ok (.dataBlock 1 1), 74, false), (.ok .endOfSoundData, 75, true),
              (.ok .eof, 75, true), (.ok .eof, 75, true)] } := by
  intro fault log block source other header
  let track : Track :=
    { path := none
      header
      cursor := ⟨.chunk 0x50 [0x66] :: .fault fault ::
        Source.ofBytes (block ++ [0x66, 0x47, 0x64, 0x33]), 64⟩ }
  have hopen : Track.open none source = .ok track := by cbv
  have hend : (track.after 3).next.1 = .ok .endOfSoundData := by cbv
  obtain ⟨-, -, -, hseals⟩ := end_is_final hopen
  obtain ⟨front, hfront, hagain⟩ := hseals 3 hend
  have hexpected : front = log.map .byte ++ .fault fault :: block.map .byte := by
    apply List.append_cancel_right
    rw [← hfront]
    decide +kernel
  have hother : other.arrivals = front ++ sealed [.fault fault] := by
    rw [hexpected]
    decide +kernel
  exact ⟨track, hopen, hend, hagain other _ hother 6, by cbv⟩

end Track
end SoundLog
