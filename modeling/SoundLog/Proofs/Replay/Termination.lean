import Mathlib
import SoundLog.Proofs.Replay.Extraction
import SoundLog.Proofs.Replay.Listing

/-!
# Progress of calls and the end of replays

The search for a command ends, for every reserved opcode takes its tag. A call of a track gets on
or finishes the track, unless a fault meets its very first read; then nothing but the fault is gone.
A replay gives up after such a call, so there are no more turns than bytes, and one.
-/

namespace SoundLog

/-! ## The search for a command -/

namespace Command

/-- Reads a tag and skips what belongs to it, if it is reserved. Then the search goes on. -/
def searchTurn (wide : Bool) (cursor : Cursor) :
    Turn Cursor (EStateM.Result Problem Cursor Command) :=
  match Decoder.byte cursor with
  | .error problem after => .done (.error problem after)
  | .ok tag afterTag =>
    match reservedLength? wide tag with
    | none => .done (decodeTagged tag afterTag)
    | some length =>
      match Decoder.skip length afterTag with
      | .error problem after => .done (.error problem after)
      | .ok () after => .again after

/-- The search ends with what decoding gives. Each turn before the last takes a byte at least. -/
theorem exists_runs_searchTurn (wide : Bool) (cursor : Cursor) :
    ∃ n, n ≤ cursor.source.size + 1 ∧ Runs (searchTurn wide) cursor n (decode wide cursor) := by
  fun_induction decode wide cursor with
  | case1 cursor problem after htag =>
    refine ⟨1, Nat.succ_le_succ (Nat.zero_le _), .done ?_⟩
    simp only [searchTurn, htag]
  | case2 cursor tag afterTag htag hlength =>
    refine ⟨1, Nat.succ_le_succ (Nat.zero_le _), .done ?_⟩
    simp only [searchTurn, htag, hlength]
  | case3 cursor tag afterTag htag length hlength problem after hskip =>
    refine ⟨1, Nat.succ_le_succ (Nat.zero_le _), .done ?_⟩
    simp only [searchTurn, htag, hlength, hskip]
  | case4 cursor tag afterTag htag length hlength after hskip hsize ih =>
    obtain ⟨n, hn, hruns⟩ := ih
    refine ⟨n + 1, by omega, .again ?_ hruns⟩
    simp only [searchTurn, htag, hlength, hskip]

variable {cursor after afterTag : Cursor} {tag : UInt8} {problem : Problem}

theorem offset_of_byte (h : Decoder.byte cursor = .ok tag afterTag) :
    afterTag.offset = cursor.offset + 1 := by
  simp only [Decoder.byte, Decoder.ofReader, EStateM.adaptExcept, Reader.byte] at h
  cases hpull : cursor.source.pull with
  | byte value rest =>
    simp only [hpull] at h
    cases h
    rfl
  | ended rest => simp [hpull] at h
  | fault f rest => simp [hpull] at h

/-- A tag cannot be read at the end of the commands or because of a fault. -/
theorem byte_error_cases (h : Decoder.byte cursor = .error problem after) :
    problem.endsCommands = true ∨ ∃ fault rest, cursor.source.pull = .fault fault rest ∧
      problem = .unreadable (.fault fault) ∧ after = ⟨rest, cursor.offset⟩ := by
  simp only [Decoder.byte, Decoder.ofReader, EStateM.adaptExcept, Reader.byte] at h
  cases hpull : cursor.source.pull with
  | byte value rest => simp [hpull] at h
  | ended rest =>
    simp only [hpull] at h
    cases h
    exact Or.inl rfl
  | fault f rest =>
    simp only [hpull] at h
    cases h
    exact Or.inr ⟨f, rest, rfl, rfl, rfl⟩

theorem advances_of_tag (wide : Bool) (htag : Decoder.byte cursor = .ok tag afterTag) :
    Cursor.Advances afterTag (Cursor.ofResult (decode wide cursor)) := by
  cases hreserved : reservedLength? wide tag with
  | none =>
    rw [decode_of_tag htag hreserved]
    exact decodeTagged_moves tag afterTag
  | some length =>
    have hmoves := skip_moves length afterTag
    cases hskip : Decoder.skip length afterTag with
    | error problem after =>
      rw [hskip] at hmoves
      rwa [decode_of_skip_error htag hreserved hskip]
    | ok value after =>
      rw [hskip] at hmoves
      rw [decode_of_skip htag hreserved hskip]
      exact hmoves.trans (decode_moves wide after)

/-- Decoding gets on, whatever comes of it, unless the first tag cannot be read. -/
theorem offset_lt_decode (wide : Bool) (htag : Decoder.byte cursor = .ok tag afterTag) :
    cursor.offset < (Cursor.ofResult (decode wide cursor)).offset := by
  have hoffset := offset_of_byte htag
  have hrest := (advances_of_tag wide htag).offset_le
  omega

end Command

/-! ## One call -/

namespace Track

open Command

/-- A fault has met the very first read of a call. The call tells so and changes nothing else. -/
def FaultsAtOnce (track : Track) : Prop :=
  ∃ fault rest, track.cursor.source.pull = .fault fault rest ∧ fault.kind ≠ .unexpectedEof ∧
    track.next = (.error ⟨track.offset, track.path, .unreadable (.fault fault)⟩,
      { track with cursor := ⟨rest, track.offset⟩ })

/-- A call goes through its first tag, or it ends the commands, or a fault meets it at once. -/
theorem next_progress (track : Track) :
    track.next.2.finished = true ∨ track.offset < track.next.2.offset ∨ track.FaultsAtOnce := by
  cases hfinished : track.finished with
  | true =>
    rw [next_of_finished hfinished]
    exact Or.inl hfinished
  | false =>
    cases htag : Decoder.byte track.cursor with
    | ok tag afterTag =>
      have hoffset := offset_lt_decode track.header.hasWideReserved htag
      rw [← cursor_next hfinished] at hoffset
      exact Or.inr (Or.inl hoffset)
    | error problem after =>
      have hdecode : decode track.header.hasWideReserved track.cursor = .error problem after :=
        decode_of_byte_error htag
      obtain hends | ⟨fault, rest, hpull, rfl, rfl⟩ := byte_error_cases htag
      · rw [next_of_exhausted hfinished hdecode hends]
        exact Or.inl rfl
      · by_cases hends : fault.kind = .unexpectedEof
        · rw [next_of_exhausted hfinished hdecode (decide_eq_true hends)]
          exact Or.inl rfl
        · have hnext := next_of_problem hfinished hdecode (mt of_decide_eq_true hends)
          exact Or.inr (Or.inr ⟨fault, rest, hpull, hends, hnext⟩)

end Track

/-! ## Whole replays -/

section

variable {path : Option String} {source : Source} {track : Track}

theorem Listing.calls_le (hopen : Track.open path source = .ok track) (volume : Volume)
    (leaves : Replay → Bool) :
    ∃ n last, n ≤ track.cursor.source.size + 1 ∧ last.calls.length = n ∧
      Runs (Turn.leaveAt leaves turn) (start path source track volume) n last := by
  obtain ⟨whole, hruns, -⟩ := exists_runs hopen volume
  obtain ⟨n, last, hn, hleft⟩ := hruns.exists_leaveAt leaves
  have hturn : ∀ replay next, Turn.leaveAt leaves turn replay = .again next ∨
      Turn.leaveAt leaves turn replay = .done next →
        next.calls.length = replay.calls.length + 1 := by
    intro replay next hturn
    rw [calls_turn (Turn.leaveAt_eq hturn), List.length_append, List.length_singleton]
  have hcount := hleft.count hturn
  exact ⟨n, last, hn.trans track.length_steps_le, hcount.trans (Nat.zero_add n), hleft⟩

/-- Every call of a track gets on, finishes the track, or meets a fault with its very first read,
and its search for a command ends. So the loops of listings and extractions end after no more calls
than bytes are left for the commands, and one; a listing also when it is left at some states because
a line cannot be written there. -/
theorem Track.replay_ends (hopen : Track.open path source = .ok track) :
    (∀ n,
      let before := track.after n
      let after := track.after (n + 1)
      before.offset ≤ after.offset ∧
        (after.finished = true ∨ before.offset < after.offset ∨ before.FaultsAtOnce) ∧
        ∃ tags, tags ≤ before.cursor.source.size + 1 ∧
          Runs (Command.searchTurn before.header.hasWideReserved) before.cursor tags
            (Command.decode before.header.hasWideReserved before.cursor)) ∧
    (∀ volume, ∃ n last, n ≤ track.cursor.source.size + 1 ∧ last.calls.length = n ∧
      Runs Listing.turn (Listing.start path source track volume) n last ∧
      (Listing.task path source).outcome volume =
        (Listing.conclude last).outcome last.problems) ∧
    (∀ volume leaves, ∃ n last, n ≤ track.cursor.source.size + 1 ∧ last.calls.length = n ∧
      Runs (Turn.leaveAt leaves Listing.turn) (Listing.start path source track volume) n last) ∧
    ∀ output dx7 (volume made : Volume), volume.makeDirectory output = .ok made →
      ∃ n last, n ≤ track.cursor.source.size + 1 ∧ last.replay.calls.length = n ∧
        Runs (Extraction.Session.turn output dx7)
          (Extraction.start path source output track volume) n last ∧
        (Extraction.task path source output dx7).outcome volume =
          (last.conclude output dx7).replay.outcome (last.conclude output dx7).summary := by
  refine ⟨?_, ?_, Listing.calls_le hopen, ?_⟩
  · intro n before after
    have hafter : after = before.next.2 := track.after_succ n
    rw [hafter]
    refine ⟨before.next_advances.offset_le, before.next_progress, ?_⟩
    exact Command.exists_runs_searchTurn _ _
  · intro volume
    obtain ⟨last, hruns, hcalls, -, -, -, houtcome⟩ := Listing.exists_runs hopen volume
    exact ⟨_, last, track.length_steps_le, congrArg List.length hcalls, hruns, houtcome⟩
  · intro output dx7 volume made hmake
    obtain ⟨taken, last, hprefix, hruns, hgains, -, -, houtcome⟩ :=
      Extraction.exists_runs hopen (Extraction.failed_start hmake)
    have hcalls : last.replay.calls.length = taken.length := congrArg List.length hgains.calls_eq
    exact ⟨_, last, hprefix.length_le.trans track.length_steps_le, hcalls, hruns, houtcome⟩

/-- A fault behind a wait and a tag without a meaning: the third call is the last one there can
be, and it leaves the track where it is. -/
theorem Track.replay_ends_at_fault :
    let log : List UInt8 := ({ version := 0x150 } : Header).toBytes ++ [0x62, 0x05]
    let source : Source := Source.ofBytes log ++ [.fault ⟨.other, "read failed"⟩]
    ∃ track, Track.open none source = .ok track ∧ track.cursor.source.size = 2 ∧
      (track.after 2).FaultsAtOnce ∧
      (∃ n last, n ≤ 3 ∧ last.calls.length = n ∧
        Runs Listing.turn (Listing.start none source track {}) n last) ∧
      ∃ n last, n ≤ 3 ∧ last.replay.calls.length = n ∧
        Runs (Extraction.Session.turn "out" false)
          (Extraction.start none source "out" track {}) n last := by
  intro log source
  let track : Track :=
    { path := none
      header := { eofOffset := 4, version := 0x150, dataOffset := 12 }
      cursor := ⟨[.chunk 0x62 [0x05], .fault ⟨.other, "read failed"⟩], 64⟩ }
  have hopen : Track.open none source = .ok track := by cbv
  have hmake : ({} : Volume).makeDirectory "out" = .ok ⟨[(["out"], .directory)]⟩ := by cbv
  have hplace : (track.after 3).finished = false ∧ (track.after 2).offset = 66 ∧
      (track.after 3).offset = 66 := by cbv
  obtain ⟨hcalls, hlisting, -, hextraction⟩ := Track.replay_ends hopen
  obtain ⟨n, last, hn, hlength, hruns, -⟩ := hlisting {}
  obtain ⟨n', last', hn', hlength', hruns', -⟩ := hextraction "out" false {} _ hmake
  refine ⟨track, hopen, by decide, ?_, ⟨n, last, hn, hlength, hruns⟩,
    ⟨n', last', hn', hlength', hruns'⟩⟩
  obtain ⟨-, hfinished | hoffset | hfault, -⟩ := hcalls 2
  · cases hplace.1.symm.trans hfinished
  · rw [hplace.2.1, hplace.2.2] at hoffset
    exact absurd hoffset (Nat.lt_irrefl 66)
  · exact hfault

end
end SoundLog
