import SoundLog.Proofs.Track.Disturbed
import SoundLog.Proofs.Track.Truncation

/-!
# Calls that are made again

Where tags are asked for, every fault makes one call fail. Whoever calls again after each of these
gets what the log gives without the faults.
-/

namespace SoundLog
namespace Track

open Command

/-! ## Many calls -/

def keptCalls (track : Track) (n : Nat) : List Step := (track.calls n).filter (!·.meetsFault)

def failedCalls (track : Track) (n : Nat) : List Step := (track.calls n).filter Step.meetsFault

section

variable {track other : Track}

theorem calls_succ_of_fault (h : track.step.meetsFault = true) (n : Nat) :
    track.keptCalls (n + 1) = track.next.2.keptCalls n ∧
      track.failedCalls (n + 1) = track.step :: track.next.2.failedCalls n :=
  ⟨List.filter_cons_of_neg (by simp [h]), List.filter_cons_of_pos h⟩

theorem calls_succ_of_not_fault (h : track.step.meetsFault = false) (n : Nat) :
    track.keptCalls (n + 1) = track.step :: track.next.2.keptCalls n ∧
      track.failedCalls (n + 1) = track.next.2.failedCalls n :=
  ⟨List.filter_cons_of_pos (by simp [h]), List.filter_cons_of_neg (by simp [h])⟩

theorem length_keptCalls_add (track : Track) (n : Nat) :
    (track.keptCalls n).length + (track.failedCalls n).length = n := by
  have hlength := List.length_eq_length_filter_add Step.meetsFault (l := track.calls n)
  rw [length_calls, Nat.add_comm] at hlength
  exact hlength.symm

theorem map_seen_calls_of_next_eq (h : other.next = track.next) (n : Nat) :
    (other.calls n).map Step.seen = (track.calls n).map Step.seen := by
  cases n with
  | zero => rfl
  | succ n =>
    have hafter : other.step.after = track.step.after := congrArg Prod.snd h
    rw [calls, calls, List.map_cons, List.map_cons, seen_of_next_eq h, hafter]

theorem finished_after_of_next_eq (h : other.next = track.next)
    (hfinished : other.finished = track.finished) (n : Nat) :
    (other.after n).finished = (track.after n).finished := by
  cases n with
  | zero => exact hfinished
  | succ n => rw [after, after, h]

end

theorem meetsFault_of_faultSeen {step : Step} {path : Option String} {item : Nat × Fault}
    (h : step.seen = faultSeen path item) : step.meetsFault = true := by
  have houtcome : step.outcome = .error ⟨item.1, path, .unreadable (.fault item.2)⟩ :=
    congrArg Prod.fst h
  simp only [Step.meetsFault, houtcome, Problem.cause]

theorem meetsFault_of_seen_eq {step other : Step} (h : step.seen = other.seen) :
    step.meetsFault = other.meetsFault := by
  have houtcome : step.outcome = other.outcome := congrArg Prod.fst h
  simp only [Step.meetsFault, houtcome]

/-- The calls that meet no fault are those of the left track, and the others meet the faults one
after another. None is left when the left track has finished. -/
theorem Disturbed.calls {left right : Track} (h : Disturbed left right) (n : Nat) :
    (right.keptCalls n).map Step.seen =
        (left.calls (right.keptCalls n).length).map Step.seen ∧
      (right.failedCalls n).map Step.seen =
        (right.cursor.faults.take (right.failedCalls n).length).map (faultSeen right.path) ∧
      ((left.after (right.keptCalls n).length).finished = true →
        (right.failedCalls n).length = right.cursor.faults.length) := by
  induction n generalizing left right with
  | zero =>
    refine ⟨rfl, rfl, ?_⟩
    intro hfinished
    rw [h.faults_of_finished hfinished]
    rfl
  | succ n ih =>
    cases h.meets with
    | fault item behind hfaults hseen hnext hfinished hrest =>
      obtain ⟨hkept, hfailed, hend⟩ := ih hrest
      obtain ⟨hkept', hfailed'⟩ := calls_succ_of_fault (meetsFault_of_faultSeen hseen) n
      rw [map_seen_calls_of_next_eq hnext] at hkept
      rw [finished_after_of_next_eq hnext hfinished] at hend
      rw [hkept', hfailed', hfaults]
      refine ⟨hkept, ?_, ?_⟩
      · rw [List.map_cons, List.length_cons, List.take_succ_cons, List.map_cons, hseen, hfailed,
          path_next]
      · intro hlast
        rw [List.length_cons, List.length_cons, hend hlast]
    | call hfaults hseen hrest =>
      obtain ⟨hkept, hfailed, hend⟩ := ih hrest
      have hfault : right.step.meetsFault = false :=
        (meetsFault_of_seen_eq hseen).trans (meetsFault_step h.cursor.intact)
      obtain ⟨hkept', hfailed'⟩ := calls_succ_of_not_fault hfault n
      rw [hfaults, path_next] at hfailed
      rw [hfaults] at hend
      rw [hkept', hfailed']
      refine ⟨?_, hfailed, hend⟩
      rw [List.map_cons, List.length_cons, Track.calls, List.map_cons, hseen, hkept]
      rfl

/-! ## A whole log -/

/-- Opening takes what stands in front of the commands. -/
theorem takes_of_open {path : Option String} {source : Source} {track : Track}
    (hintact : source.Intact) (hopen : Track.open path source = .ok track) :
    ∃ taken, Cursor.Takes { source } taken track.cursor := by
  obtain ⟨-, -, hstands⟩ := of_open hintact hopen
  refine ⟨source.bytes.take track.offset, hstands.intact, ?_, ?_⟩
  · rw [hstands.left_eq, ← hstands.offset_eq]
    exact (List.take_append_drop _ _).symm
  · have hplace := hstands.place_le
    rw [← hstands.offset_eq] at hplace
    rw [List.length_take, Nat.min_eq_left hplace, Nat.zero_add]
    rfl

theorem exists_open_disturbed {path : Option String} {source disturbed : Source} {track : Track}
    (hintact : source.Intact) (hopen : Track.open path source = .ok track)
    (hbytes : disturbed.bytes = source.bytes) (hpause : .pause ∉ disturbed)
    (hfaults : ∀ item ∈ disturbed.faults,
      item.2.kind ≠ .unexpectedEof ∧ track.AsksTagAt item.1) :
    ∃ retried, Track.open path disturbed = .ok retried ∧ Disturbed track retried ∧
      retried.cursor.faults = disturbed.faults := by
  obtain ⟨taken, htakes⟩ := takes_of_open hintact hopen
  have hcursor : Cursor.Interspersed { source } { source := disturbed } :=
    ⟨rfl, hintact, hbytes, Source.pause_notMem_arrivals hpause⟩
  obtain ⟨later, hbeside, hbehind⟩ :=
    hcursor.exists_later htakes fun item hitem => (hfaults item hitem).2.offset_le
  obtain ⟨used, harrivals, hopens⟩ := open_beside hopen
  obtain rfl := htakes.used_eq hintact harrivals
  obtain ⟨retried, hopen', htrack⟩ := hopens disturbed later hbeside.arrivals_eq
  obtain ⟨hcursor', hsame⟩ := hbehind retried.cursor htrack.cursor
  have hsame : retried.cursor.faults = disturbed.faults := hsame
  refine ⟨retried, hopen', ?_, hsame⟩
  refine ⟨htrack.path_eq, htrack.header_eq, htrack.finished_eq, hcursor', ?_⟩
  intro item hitem
  exact hfaults item (hsame ▸ hitem)

/-- Faults that come where tags are asked for, the end of the data included, make one call each
fail, in their order and at their places. The other calls give what the calls of the log without
faults give, and a call that gives `eof` comes when no fault is left. -/
theorem retried_calls {path : Option String} {source disturbed : Source} {track : Track}
    (hintact : source.Intact) (hopen : Track.open path source = .ok track)
    (hbytes : disturbed.bytes = source.bytes) (hpause : .pause ∉ disturbed)
    (hfaults : ∀ item ∈ disturbed.faults,
      item.2.kind ≠ .unexpectedEof ∧ track.AsksTagAt item.1) :
    ∃ retried, Track.open path disturbed = .ok retried ∧ retried.header = track.header ∧
      retried.offset = track.offset ∧
      (∃ step ∈ track.calls (source.bytes.length + 1), step.outcome = .ok .eof) ∧
      ∀ n,
        n ≤ (retried.keptCalls n).length + disturbed.faults.length ∧
        (retried.keptCalls n).map Step.seen =
          (track.calls (retried.keptCalls n).length).map Step.seen ∧
        (retried.failedCalls n).map Step.seen =
          (disturbed.faults.take (retried.failedCalls n).length).map (faultSeen path) ∧
        ((∃ step ∈ retried.keptCalls n, step.outcome = .ok .eof) →
          (retried.failedCalls n).length = disturbed.faults.length) := by
  obtain ⟨retried, hopen', hdisturbed, hsame⟩ :=
    exists_open_disturbed hintact hopen hbytes hpause hfaults
  obtain ⟨-, -, hstands⟩ := of_open hintact hopen
  have hpath : retried.path = path := by
    obtain ⟨-, cursor, -, rfl⟩ := exists_of_open hopen'
    rfl
  refine ⟨retried, hopen', hdisturbed.header_eq, hdisturbed.cursor.offset_eq,
    exists_eof hstands.intact ?_, ?_⟩
  · rw [hstands.left_eq, List.length_drop]
    omega
  intro n
  obtain ⟨hkept, hfailed, hend⟩ := hdisturbed.calls n
  rw [hsame, hpath] at hfailed
  rw [hsame] at hend
  refine ⟨?_, hkept, hfailed, ?_⟩
  · have hlength := congrArg List.length hfailed
    have hsum := retried.length_keptCalls_add n
    rw [List.length_map, List.length_map, List.length_take] at hlength
    omega
  · rintro ⟨step, hstep, heof⟩
    have hseen : step.seen ∈ (track.calls (retried.keptCalls n).length).map Step.seen :=
      hkept ▸ List.mem_map_of_mem hstep
    obtain ⟨same, hmem, hsame'⟩ := List.mem_map.mp hseen
    have heof' : same.outcome = .ok .eof := (congrArg Prod.fst hsame').trans heof
    exact hend ((finished_after_iff track _).mpr (Or.inr ⟨same, hmem, Or.inr heof'⟩))

/-- A log with a reserved opcode and with a data block that has no contents, and faults in front of
it, behind the opcode, behind the block and at the end of the data. -/
theorem retried_calls_around_opcode :
    let fault : Fault := ⟨.other, "bad sector"⟩
    let slow : Fault := ⟨.timedOut, "no answer"⟩
    let header : List UInt8 := ({ version := 0x150 } : Header).toBytes
    let block : List UInt8 := [0x66, 0x01, 0x00, 0x00, 0x00, 0x00]
    let body : List UInt8 := 0x67 :: (block ++ [0x50, 0x66])
    let source : Source := .ofBytes (header ++ 0x62 :: 0x31 :: 0x00 :: body)
    let faulty : Source :=
      [.fault slow, .chunk 0x62 [0x31, 0x00], .fault fault, .interrupted, .fault slow,
        .chunk 0x67 block, .fault fault, .chunk 0x50 [0x66], .fault slow]
    let disturbed : Source := Source.ofBytes header ++ faulty
    ∃ track retried, Track.open none source = .ok track ∧ Track.open none disturbed = .ok retried ∧
      (retried.keptCalls 9).map Step.seen = (track.calls 4).map Step.seen ∧
      (track.calls 4).map Step.seen =
        [(.ok .wait735, 65, false), (.ok (.dataBlock 1 0), 74, false),
          (.ok (.psgWrite 0x66), 76, false), (.ok .eof, 76, true)] ∧
      (retried.failedCalls 9).map Step.seen =
        [(64, slow), (67, fault), (67, slow), (74, fault), (76, slow)].map (faultSeen none) := by
  intro fault slow header block body source faulty disturbed
  let standing (bytes : List UInt8) (offset : Nat) : Track :=
    { path := none
      header := { eofOffset := 4, version := 0x150, dataOffset := 12 }
      cursor := ⟨Source.ofBytes bytes, offset⟩ }
  let start : Track := standing (0x62 :: 0x31 :: 0x00 :: body) 64
  let second : Track := standing (0x31 :: 0x00 :: body) 65
  let third : Track := standing body 67
  let fourth : Track := standing [0x50, 0x66] 74
  let last : Track := standing [] 76
  have hopen : Track.open none source = .ok start := by cbv
  have hplaces : disturbed.faults =
      [(64, slow), (67, fault), (67, slow), (74, fault), (76, slow)] := by cbv
  have hlast : fourth.AsksTagAt 76 := by
    have hnext : fourth.next.2 = last := by cbv
    exact .later (hnext ▸ .here rfl)
  have hfourth : third.AsksTagAt 74 ∧ third.AsksTagAt 76 := by
    have hnext : third.next.2 = fourth := by cbv
    exact ⟨.later (hnext ▸ .here rfl), .later (hnext ▸ hlast)⟩
  have hpasses : Passes second.header.hasWideReserved second.cursor third.cursor := by
    have htag : Decoder.byte second.cursor =
        .ok 0x31 ⟨Source.ofBytes (0x00 :: body), 66⟩ := by cbv
    exact .opcode htag (by cbv) (by cbv)
  have hbehind : ∀ place, third.AsksTagAt place → start.AsksTagAt place := by
    intro place hplace
    have hnext : start.next.2 = second := by cbv
    have hsecond : second.AsksTagAt place := .behindOpcode hpasses hplace
    exact .later (hnext ▸ hsecond)
  have hfaults : ∀ item ∈ disturbed.faults,
      item.2.kind ≠ .unexpectedEof ∧ start.AsksTagAt item.1 := by
    rw [hplaces]
    simp only [List.forall_mem_cons]
    exact ⟨⟨by decide, .here rfl⟩, ⟨by decide, hbehind 67 (.here rfl)⟩,
      ⟨by decide, hbehind 67 (.here rfl)⟩, ⟨by decide, hbehind 74 hfourth.1⟩,
      ⟨by decide, hbehind 76 hfourth.2⟩, List.forall_mem_nil _⟩
  have hintact : source.Intact := by decide +kernel
  have hbytes : disturbed.bytes = source.bytes := by decide +kernel
  have hpause : .pause ∉ disturbed := by decide +kernel
  obtain ⟨retried, hopen', -, -, -, hcalls⟩ := retried_calls hintact hopen hbytes hpause hfaults
  obtain ⟨-, hkept, hfailed, -⟩ := hcalls 9
  have hfour : (retried.keptCalls 9).length = 4 := by
    let again : Track := { start with cursor := ⟨faulty, 64⟩ }
    have hagain : Track.open none disturbed = .ok again := by cbv
    rw [Except.ok.inj (hopen'.symm.trans hagain)]
    cbv
  have hfive : (retried.failedCalls 9).length = 5 := by
    have hsum := retried.length_keptCalls_add 9
    omega
  rw [hfour] at hkept
  rw [hfive, hplaces] at hfailed
  exact ⟨start, retried, hopen, hopen', hkept, by cbv, hfailed⟩

end Track
end SoundLog
