import SoundLog.Proofs.Stream.Parting
import SoundLog.Proofs.Track.Acceptance
import SoundLog.Proofs.Track.Pieces

/-!
# Logs that are cut short

Where the source of a log stops, at its end or in a pause, the track ends as well. Up to there it
gives just what it gives on the whole log, and nothing that is cut off shows in part: cutting a log
only shortens what is seen of it.
-/

namespace SoundLog

variable {parting : Parting}

/-! ## Decoding -/

namespace Command

theorem byte_incremental : Incremental Exhausted Decoder.byte :=
  Reader.byte_incremental.adaptExcept _ Exhausted.of_runsOut

theorem skip_incremental (n : Nat) : Incremental Exhausted (Decoder.skip n) :=
  (Reader.skip_incremental n).adaptExcept _ Exhausted.of_runsOut

theorem incremental_compositional : Compositional (Incremental Exhausted ·) where
  of_pure := Incremental.of_pure
  of_throw problem _ := Incremental.of_throw problem
  bind := Incremental.bind
  byte := byte_incremental
  pair := Reader.pair_incremental.adaptExcept _ Exhausted.of_runsOut
  number width := (Reader.number_incremental width).adaptExcept _ Exhausted.of_runsOut

theorem decodeTagged_incremental (tag : UInt8) : Incremental Exhausted (decodeTagged tag) := by
  refine incremental_compositional.decodeTagged fun _ => ?_
  exact incremental_compositional.decodeDataBlock skip_incremental

theorem decode_incremental (wide : Bool) : Incremental Exhausted (decode wide) := by
  intro parting hstops left right h
  -- along the reserved opcodes on the left, which the right has too until the left runs out
  fun_induction decode wide left generalizing right with
  | case1 left problem after htag =>
    obtain ⟨after', hright, hafter⟩ | ⟨he, hplace⟩ := byte_incremental.error_cases hstops h htag
    · rw [decode_of_byte_error hright]
      exact .error problem hafter
    · exact .short he hplace _
  | case2 left tag afterTag htag hreserved =>
    obtain ⟨afterTag', hright, hafterTag⟩ := byte_incremental.exists_ok hstops h htag
    rw [decode_of_tag hright hreserved]
    exact decodeTagged_incremental tag parting hstops _ _ hafterTag
  | case3 left tag afterTag htag length hreserved problem after hskip =>
    obtain ⟨afterTag', hright, hafterTag⟩ := byte_incremental.exists_ok hstops h htag
    obtain ⟨after', hright', hafter⟩ | ⟨he, hplace⟩ :=
      (skip_incremental length).error_cases hstops hafterTag hskip
    · rw [decode_of_skip_error hright hreserved hright']
      exact .error problem hafter
    · exact .short he hplace _
  | case4 left tag afterTag htag length hreserved after hskip hsize ih =>
    obtain ⟨afterTag', hright, hafterTag⟩ := byte_incremental.exists_ok hstops h htag
    obtain ⟨after', hright', hafter⟩ := (skip_incremental length).exists_ok hstops hafterTag hskip
    rw [decode_of_skip hright hreserved hright']
    exact ih _ hafter

end Command

/-! ## Opening -/

namespace Header

theorem readFields_before (hstops : Stops parting.left) (fields : List Field) {left right : Cursor}
    (h : Cursor.Before parting left right) (hread : (readFields fields left).problem = none) :
    (readFields fields right).problem = none ∧
      (readFields fields right).accepted = (readFields fields left).accepted ∧
      Cursor.Before parting (readFields fields left).cursor (readFields fields right).cursor := by
  induction fields generalizing left right with
  | nil => exact ⟨rfl, rfl, h⟩
  | cons field fields ih =>
    have hfield : Incremental Reader.RunsOut (Reader.bytes field.length) :=
      Reader.collect_incremental _ _
    unfold readFields at hread ⊢
    cases hleft : Reader.bytes field.length left with
    | error failure after =>
      rw [hleft] at hread
      cases hread
    | ok bytes after =>
      obtain ⟨after', hright, hafter⟩ := hfield.exists_ok hstops h hleft
      rw [hleft] at hread
      rw [hright]
      cases hobjection : objection? field bytes with
      | some problem =>
        simp only [hobjection] at hread
        cases hread
      | none =>
        simp only [hobjection] at hread ⊢
        obtain ⟨hproblem, haccepted, hcursor⟩ := ih hafter hread
        exact ⟨hproblem, by rw [haccepted], hcursor⟩

end Header

namespace Track

open Command

/-- The tracks differ only in what comes where their sources part. -/
structure Before (parting : Parting) (left right : Track) : Prop where
  path_eq : left.path = right.path
  header_eq : left.header = right.header
  cursor : Cursor.Before parting left.cursor right.cursor
  finished_eq : left.finished = right.finished

/-- What can be opened on the left can be opened on the right. -/
theorem open_before (path : Option String) {left right : Source} {track : Track}
    (hstops : Stops parting.left) (h : Cursor.Before parting { source := left } { source := right })
    (hopen : Track.open path left = .ok track) :
    ∃ other, Track.open path right = .ok other ∧ track.Before parting other := by
  obtain ⟨hproblem, cursor, hskip, rfl⟩ := exists_of_open hopen
  obtain ⟨hproblem', haccepted, hcursor⟩ := Header.readFields_before hstops Field.all h hproblem
  have hgap : gap (Header.read right) = gap (Header.read left) := by
    unfold gap Header.read
    rw [haccepted, hcursor.offset_eq]
  obtain ⟨cursor', hskip', hafter⟩ := (Reader.skip_incremental _).exists_ok hstops hcursor hskip
  rw [← hgap] at hskip'
  refine ⟨_, open_of_skip hproblem' hskip', rfl, ?_, hafter, rfl⟩
  exact congrArg Header.ofBytes haccepted.symm

/-! ## Calls -/

theorem Before.offset_eq {left right : Track} (h : left.Before parting right) :
    left.offset = right.offset := h.cursor.offset_eq

/-- A call gives the same on both tracks, or ends the left one where the sources part. -/
theorem next_before (hstops : Stops parting.left) {left right : Track}
    (h : left.Before parting right) :
    (left.next.1 = right.next.1 ∧ left.next.2.Before parting right.next.2) ∨
      left.next.1 = .ok .eof ∧ left.next.2.finished = true ∧
        left.next.2.offset = parting.place := by
  cases hfinished : left.finished with
  | true =>
    have hfinished' := h.finished_eq.symm.trans hfinished
    rw [next_of_finished hfinished, next_of_finished hfinished']
    exact Or.inl ⟨rfl, h⟩
  | false =>
    have hfinished' := h.finished_eq.symm.trans hfinished
    have hdecode := decode_incremental left.header.hasWideReserved
    cases hleft : decode left.header.hasWideReserved left.cursor with
    | ok command after =>
      obtain ⟨after', hright, hafter⟩ := hdecode.exists_ok hstops h.cursor hleft
      rw [next_of_ok hfinished hleft, next_of_ok hfinished' (h.header_eq ▸ hright)]
      exact Or.inl ⟨rfl, h.path_eq, h.header_eq, hafter, rfl⟩
    | error problem after =>
      obtain ⟨after', hright, hafter⟩ | ⟨hproblem, hplace⟩ :=
        hdecode.error_cases hstops h.cursor hleft
      · by_cases hproblem : problem.endsCommands = true
        · rw [next_of_exhausted hfinished hleft hproblem,
            next_of_exhausted hfinished' (h.header_eq ▸ hright) hproblem]
          exact Or.inl ⟨rfl, h.path_eq, h.header_eq, hafter, rfl⟩
        · rw [next_of_problem hfinished hleft hproblem,
            next_of_problem hfinished' (h.header_eq ▸ hright) hproblem]
          refine Or.inl ⟨?_, h.path_eq, h.header_eq, hafter, h.finished_eq⟩
          rw [h.path_eq, hafter.offset_eq]
      · rw [next_of_exhausted hfinished hleft hproblem]
        exact Or.inr ⟨rfl, rfl, hplace⟩

/-! ## Before the end -/

/-- What is seen of some steps before the first `eof`: the outcomes and the places reached. -/
def beforeEof (steps : List Step) : List (Outcome × Nat) :=
  (steps.takeWhile fun step => step.outcome ≠ .ok .eof).map fun step =>
    (step.outcome, step.after.offset)

theorem beforeEof_cons_eof {step : Step} {steps : List Step} (h : step.outcome = .ok .eof) :
    beforeEof (step :: steps) = [] := by
  rw [beforeEof, List.takeWhile_cons_of_neg (by simpa using h), List.map_nil]

theorem beforeEof_cons {step : Step} {steps : List Step} (h : step.outcome ≠ .ok .eof) :
    beforeEof (step :: steps) = (step.outcome, step.after.offset) :: beforeEof steps := by
  rw [beforeEof, List.takeWhile_cons_of_pos (by simpa using h), List.map_cons, beforeEof]

theorem beforeEof_prefix (hstops : Stops parting.left) {left right : Track}
    (h : left.Before parting right) (k : Nat) :
    beforeEof (left.calls k) <+: beforeEof (right.calls k) := by
  induction k generalizing left right with
  | zero => exact List.nil_prefix
  | succ k ih =>
    rw [calls, calls]
    by_cases heof : left.next.1 = .ok .eof
    · rw [beforeEof_cons_eof heof]
      exact List.nil_prefix
    · obtain ⟨houtcome, hnext⟩ | ⟨hend, -⟩ := next_before hstops h
      · have heof' : right.next.1 ≠ .ok .eof := houtcome ▸ heof
        rw [beforeEof_cons heof, beforeEof_cons heof']
        have hseen : (left.step.outcome, left.step.after.offset) =
            (right.step.outcome, right.step.after.offset) :=
          Prod.ext houtcome hnext.offset_eq
        rw [hseen, List.prefix_cons_inj]
        exact ih hnext
      · exact absurd hend heof

theorem next_uses {track : Track} (hintact : track.cursor.source.Intact)
    (heof : track.next.1 ≠ .ok .eof) :
    track.next.2.cursor.source.Intact ∧
      track.next.2.cursor.source.bytes.length < track.cursor.source.bytes.length := by
  cases hfinished : track.finished with
  | true => exact absurd (by rw [next_of_finished hfinished]) heof
  | false =>
    rcases next_cases hintact hfinished with
      ⟨command, opcodes, stored, -, ⟨hne, contents, -, rfl⟩, htakes⟩ |
      ⟨-, -, hend, -⟩ | ⟨-, opcodes, bad, -, -, -, hbad, htakes⟩
    · refine ⟨htakes.intact, htakes.length_lt (List.append_ne_nil_of_right_ne_nil _ ?_)⟩
      rw [encode_eq_cons hne]
      exact List.cons_ne_nil _ _
    · exact absurd hend heof
    · refine ⟨htakes.intact, htakes.length_lt (List.append_ne_nil_of_right_ne_nil _ ?_)⟩
      rcases hbad with ⟨tag, rfl, -⟩ | ⟨mark, rfl, -⟩ <;> exact List.cons_ne_nil _ _

/-- There are fewer calls before the end than bytes left. -/
theorem exists_eof {track : Track} (hintact : track.cursor.source.Intact) {k : Nat}
    (hk : track.cursor.source.bytes.length < k) :
    ∃ step ∈ track.calls k, step.outcome = .ok .eof := by
  induction k generalizing track with
  | zero => omega
  | succ k ih =>
    rw [calls]
    by_cases heof : track.next.1 = .ok .eof
    · exact ⟨track.step, List.mem_cons_self, heof⟩
    · obtain ⟨hafter, hlt⟩ := next_uses hintact heof
      obtain ⟨step, hstep, houtcome⟩ := ih hafter (by omega)
      exact ⟨step, List.mem_cons_of_mem _ hstep, houtcome⟩

/-! ## Behind the end -/

theorem Before.symm {left right : Track} (h : left.Before parting right) :
    right.Before parting.swap left :=
  ⟨h.path_eq.symm, h.header_eq.symm, h.cursor.symm, h.finished_eq.symm⟩

/-- The tracks have not come to where their sources part, or they have both finished there. -/
def Level (parting : Parting) (left right : Track) : Prop :=
  left.Before parting right ∨
    left.finished = true ∧ right.finished = true ∧ left.offset = right.offset

/-- Where both sources stop, a call on the one track is like a call on the other. -/
theorem Level.step {left right : Track} (h : Level parting left right)
    (hleft : Stops parting.left) (hright : Stops parting.right) :
    left.step.seen = right.step.seen ∧ Level parting left.step.after right.step.after := by
  rcases h with h | ⟨hfinished, hfinished', hoffset⟩
  · rcases next_before hleft h with ⟨houtcome, hnext⟩ | ⟨heof, hfinished, hplace⟩
    · exact ⟨Prod.ext houtcome (Prod.ext hnext.offset_eq hnext.finished_eq), Or.inl hnext⟩
    · rcases next_before hright h.symm with ⟨houtcome, hnext⟩ | ⟨heof', hfinished', hplace'⟩
      · have hnext := hnext.symm
        exact ⟨Prod.ext houtcome.symm (Prod.ext hnext.offset_eq hnext.finished_eq), Or.inl hnext⟩
      · have hoffset : left.next.2.offset = right.next.2.offset := hplace.trans hplace'.symm
        refine ⟨Prod.ext (heof.trans heof'.symm) (Prod.ext hoffset ?_),
          Or.inr ⟨hfinished, hfinished', hoffset⟩⟩
        exact hfinished.trans hfinished'.symm
  · unfold Track.step
    rw [next_of_finished hfinished, next_of_finished hfinished']
    exact ⟨Prod.ext rfl (Prod.ext hoffset (hfinished.trans hfinished'.symm)),
      Or.inr ⟨hfinished, hfinished', hoffset⟩⟩

theorem calls_level {left right : Track} (h : Level parting left right)
    (hleft : Stops parting.left) (hright : Stops parting.right) (k : Nat) :
    (left.calls k).map Step.seen = (right.calls k).map Step.seen := by
  induction k generalizing left right with
  | zero => rfl
  | succ k ih =>
    obtain ⟨hseen, hafter⟩ := h.step hleft hright
    rw [calls, calls, List.map_cons, List.map_cons, hseen, ih hafter]

theorem eof_of_mem_dropWhile {track : Track} (hintact : track.cursor.source.Intact) (k : Nat) :
    ∀ step ∈ (track.calls k).dropWhile (fun step => step.outcome ≠ .ok .eof),
      step.outcome = .ok .eof := by
  induction k generalizing track with
  | zero => exact fun step hstep => nomatch hstep
  | succ k ih =>
    rw [calls]
    by_cases heof : track.step.outcome = .ok .eof
    · rw [List.dropWhile_cons_of_neg (by simpa using heof)]
      intro step hstep
      rcases List.mem_cons.mp hstep with rfl | hlater
      · exact heof
      · have hfinished : track.step.after.finished = true :=
          track.finished_next_iff.mpr (Or.inr (Or.inr heof))
        rw [calls_of_finished hfinished] at hlater
        rw [List.eq_of_mem_replicate hlater]
    · rw [List.dropWhile_cons_of_pos (by simpa using heof)]
      exact ih (next_uses hintact heof).1

/-! ## Cut logs -/

theorem of_open {path : Option String} {source : Source} {track : Track} (hintact : source.Intact)
    (hopen : Track.open path source = .ok track) :
    Header.HasMagic source.bytes ∧ Header.HasSupportedVersion source.bytes ∧
      track.StandsAt source.bytes (max 64 (Header.commandsPlace source.bytes)) := by
  obtain ⟨other, hother, -, hmagic, hversion, -, -, hstands, -⟩ | ⟨d, herror, -⟩ :=
    open_cases path hintact
  · obtain rfl := Except.ok.inj (hopen.symm.trans hother)
    exact ⟨hmagic, hversion, hstands⟩
  · cases hopen.symm.trans herror

/-- A log that is cut behind the place of its first command can still be opened. -/
theorem exists_open_take {path : Option String} {whole cut : Source} {track : Track} {n : Nat}
    (hwhole : whole.Intact) (hopen : Track.open path whole = .ok track) (hstart : track.offset ≤ n)
    (hn : n ≤ whole.bytes.length) (hcut : cut.Intact) (hbytes : cut.bytes = whole.bytes.take n) :
    ∃ shorter, Track.open path cut = .ok shorter := by
  obtain ⟨hmagic, hversion, hstands⟩ := of_open hwhole hopen
  have hplace : max 64 (Header.commandsPlace whole.bytes) ≤ n := hstands.offset_eq ▸ hstart
  obtain ⟨hmagic', hversion', hplace'⟩ := Header.take_of_size_le (n := n) (by omega) whole.bytes
  have hsize : 64 ≤ cut.bytes.length := by
    rw [hbytes, List.length_take]
    omega
  obtain ⟨shorter, hshorter, -⟩ | ⟨d, -, hrejects⟩ := open_cases path hcut
  · exact ⟨shorter, hshorter⟩
  · refine absurd hrejects (not_rejects hsize ?_ ?_ ?_) <;> rw [hbytes]
    · exact hmagic'.mpr hmagic
    · exact hversion'.mpr hversion
    · rw [hplace', List.length_take]
      omega

/-- A pause ends a log just as its end does, whatever comes behind the pause. -/
theorem transcript_pause {path : Option String} {cut front : Source} {track : Track}
    (hcut : cut.Intact) (hopen : Track.open path cut = .ok track) (hfront : front.Intact)
    (hbytes : front.bytes = cut.bytes) (later : Source) (k : Nat) :
    transcript path (front ++ .pause :: later) k = transcript path cut k := by
  have hends : cut.arrivals = cut.bytes.map Arrival.byte ++ [] := by
    rw [hcut.arrivals_eq, List.append_nil]
  have hpauses : (front ++ .pause :: later : Source).arrivals =
      cut.bytes.map Arrival.byte ++ .pause :: Source.arrivals later := by
    rw [← hbytes, ← hfront.arrivals_eq]
    exact List.flatMap_append
  obtain ⟨other, hother, hbefore⟩ :=
    open_before path stops_nil (Cursor.Before.of_arrivals hends hpauses) hopen
  have hcalls := calls_level (Or.inl hbefore) stops_nil (stops_pause _) k
  simp only [transcript, hopen, hother, hbefore.header_eq, hbefore.offset_eq, hcalls]

/-- Cutting a log behind the place of its first command only shortens what is seen before the end,
and nothing is seen behind it. A pause at the cut ends the log as well, whatever comes later. -/
theorem calls_of_truncation {path : Option String} {whole cut : Source} {track : Track} {n : Nat}
    (hwhole : whole.Intact) (hopen : Track.open path whole = .ok track) (hstart : track.offset ≤ n)
    (hn : n ≤ whole.bytes.length) (hcut : cut.Intact) (hbytes : cut.bytes = whole.bytes.take n) :
    ∃ shorter, Track.open path cut = .ok shorter ∧ shorter.header = track.header ∧
      shorter.offset = track.offset ∧
      (∀ k, beforeEof (shorter.calls k) <+: beforeEof (track.calls k)) ∧
      (∃ step ∈ shorter.calls (n + 1), step.outcome = .ok .eof) ∧
      (∃ step ∈ track.calls (whole.bytes.length + 1), step.outcome = .ok .eof) ∧
      (∀ k, ∀ step ∈ (shorter.calls k).dropWhile (fun step => step.outcome ≠ .ok .eof),
        step.outcome = .ok .eof) ∧
      ∀ front later : Source, front.Intact → front.bytes = whole.bytes.take n → ∀ k,
        transcript path (front ++ .pause :: later) k = transcript path cut k := by
  obtain ⟨shorter, hshorter⟩ := exists_open_take hwhole hopen hstart hn hcut hbytes
  obtain ⟨-, -, hstands⟩ := of_open hwhole hopen
  obtain ⟨-, -, hstands'⟩ := of_open hcut hshorter
  have hends : cut.arrivals = cut.bytes.map Arrival.byte ++ [] := by
    rw [hcut.arrivals_eq, List.append_nil]
  have hgoes : whole.arrivals =
      cut.bytes.map Arrival.byte ++ (whole.bytes.drop n).map Arrival.byte := by
    rw [hwhole.arrivals_eq, hbytes, ← List.map_append, List.take_append_drop]
  obtain ⟨other, hother, hbefore⟩ :=
    open_before path stops_nil (Cursor.Before.of_arrivals hends hgoes) hshorter
  obtain rfl := Except.ok.inj (hopen.symm.trans hother)
  refine ⟨shorter, hshorter, hbefore.header_eq, hbefore.offset_eq,
    beforeEof_prefix stops_nil hbefore, exists_eof hstands'.intact ?_, exists_eof hstands.intact ?_,
    eof_of_mem_dropWhile hstands'.intact, ?_⟩
  · rw [hstands'.left_eq, hbytes, List.length_drop, List.length_take]
    omega
  · rw [hstands.left_eq, List.length_drop]
    omega
  · intro front later hfront hfrontBytes k
    exact transcript_pause hcut hshorter hfront (hfrontBytes.trans hbytes.symm) later k

/-- A log that is cut, or paused, in the contents of a data block. -/
theorem calls_of_cutBlock :
    let log : List UInt8 := ({ version := 0x150 } : Header).toBytes ++
      [0x31, 0x00, 0x62, 0x67, 0x66, 0x01, 0x04, 0x00, 0x00, 0x00, 0xAA, 0xBB, 0xCC, 0xDD, 0x63]
    let whole : Source := Source.ofBytes log
    let cut : Source := Source.ofBytes (log.take 76)
    let paused : Source := cut ++ .pause :: Source.ofBytes (log.drop 76)
    ∃ track shorter, Track.open none whole = .ok track ∧ Track.open none cut = .ok shorter ∧
      beforeEof (shorter.calls 4) <+: beforeEof (track.calls 4) ∧
      transcript none paused 3 = transcript none cut 3 ∧
      transcript none cut 3 = .ok
        { header := { eofOffset := 4, version := 0x150, dataOffset := 12 }
          start := 64
          calls := [(.ok .wait735, 67, false), (.ok .eof, 76, true), (.ok .eof, 76, true)] } := by
  intro log whole cut paused
  have hwhole : whole.Intact := by decide +kernel
  have hcut : cut.Intact := by decide +kernel
  have hbytes : cut.bytes = whole.bytes.take 76 := by decide +kernel
  have hn : 76 ≤ whole.bytes.length := by decide +kernel
  let track : Track :=
    { path := none
      header := { eofOffset := 4, version := 0x150, dataOffset := 12 }
      cursor := ⟨Source.ofBytes (log.drop 64), 64⟩ }
  have hopen : Track.open none whole = .ok track := by cbv
  obtain ⟨shorter, hshorter, -, -, hprefix, -, -, -, hpaused⟩ :=
    calls_of_truncation hwhole hopen (n := 76) (by decide) hn hcut hbytes
  exact ⟨track, shorter, hopen, hshorter, hprefix 4, hpaused cut _ hcut hbytes 3, by cbv⟩

end Track
end SoundLog
