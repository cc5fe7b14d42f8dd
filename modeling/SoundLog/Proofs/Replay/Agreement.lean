import SoundLog.Proofs.Extraction.Files
import SoundLog.Proofs.Replay.Extraction
import SoundLog.Proofs.Replay.Lines
import SoundLog.Proofs.Replay.Listing

/-!
# Listings and extractions see the same log

A listing and an extraction of one log make the same calls, stop at the same place and count the
same problems. The writes to the chip that the lines of the listing show are the writes that the
extraction plays.
-/

namespace SoundLog

variable {path : Option String} {source : Source} {track : Track}

/-! ## The writes that a listing shows -/

namespace Listing

/-- The line of a step shows a write just if the step gives one. -/
theorem shownWrite?_ofStep? (step : Track.Step) :
    (Item.ofStep? step).bind (shownWrite? ∘ Item.line) =
      Extraction.Write.ofOutcome? step.outcome := by
  unfold Item.ofStep?
  split
  · next houtcome =>
    rw [houtcome]
    rfl
  · next command _ houtcome =>
    rw [houtcome, Option.bind_some, Function.comp_apply, Item.line]
    exact shownWrite?_commandLine step.start command
  · next houtcome =>
    rw [houtcome]
    rfl

theorem shownWrites_stepLines (steps : List Track.Step) :
    (stepLines steps).filterMap shownWrite? = Extraction.writes steps := by
  rw [stepLines_eq, List.filterMap_map, items, List.filterMap_filterMap, Extraction.writes]
  exact List.filterMap_congr fun step _ => shownWrite?_ofStep? step

end Listing

/-! ## Side by side -/

/-- If the volume takes the directory and all files, a listing and an extraction of one log succeed
or fail together. If they succeed, they have met the same problems in the same calls and have come
to the same place, and the lines of the commands show, in order, the writes played into the chip. -/
theorem Replay.listing_extraction_agree (path : Option String) (source : Source) (output : String)
    (dx7 : Bool) (shelf : Volume) {volume : Volume}
    (hwrites : ((Extraction.task path source output dx7).record volume).trouble = none) :
    (((Listing.task path source).outcome shelf).isOk =
      ((Extraction.task path source output dx7).outcome volume).isOk) ∧
    ∀ problems summary, (Listing.task path source).outcome shelf = .ok problems →
      (Extraction.task path source output dx7).outcome volume = .ok summary →
      problems = summary.problems ∧
      ∃ track n listed extracted lines,
        Track.open path source = .ok track ∧
        Runs Listing.turn (Listing.start path source track shelf) n listed ∧
        Runs (Extraction.Session.turn output dx7)
          (Extraction.start path source output track volume) n extracted ∧
        (Listing.task path source).record shelf = (Listing.conclude listed).record ∧
        (Extraction.task path source output dx7).record volume =
          (extracted.conclude output dx7).replay.record ∧
        listed.problems = problems ∧ extracted.replay.problems = problems ∧
        listed.calls = extracted.replay.calls ∧ listed.track = extracted.replay.track ∧
        ((Listing.task path source).record shelf).lines =
          Listing.preamble track.header ++ lines ∧
        lines.filterMap Listing.shownWrite? = extracted.writes ∧
        extracted.player.chip = Extraction.chipAfter {} extracted.writes := by
  have hlisting := Task.outcome_of_trouble_eq_none (Listing.trouble_task path source shelf)
  cases hopen : Track.open path source with
  | error d =>
    have hextraction := Task.outcome_of_trouble_eq_none hwrites
    simp only [Listing.task, Extraction.task, hopen] at hlisting hextraction ⊢
    rw [hlisting, hextraction]
    refine ⟨rfl, ?_⟩
    intro problems summary hproblems
    cases hproblems
  | ok track =>
    obtain ⟨listed, hlists, hcalls, hcount, htrack, hrecord, -⟩ := Listing.exists_runs hopen shelf
    obtain ⟨extracted, hextracts, hgains, hrecord', hextraction⟩ :=
      Extraction.exists_whole_runs hopen hwrites
    have hresult : (Listing.task path source).outcome shelf = .ok listed.problems := by
      rw [hlisting, hcount]
      simp only [Listing.task, hopen]
    have hsame : extracted.replay.problems = listed.problems :=
      hgains.problems_eq.trans ((Nat.zero_add _).trans hcount.symm)
    have hplayed : extracted.writes = Extraction.writes track.steps := hgains.writes_eq
    rw [hresult, hextraction]
    refine ⟨rfl, ?_⟩
    rintro problems summary ⟨⟩ ⟨⟩
    refine ⟨hsame.symm, track, _, listed, extracted, Listing.stepLines track.steps, rfl, hlists,
      hextracts, hrecord, hrecord', rfl, hsame, ?_, ?_, Listing.lines_task hopen shelf, ?_, ?_⟩
    · exact hcalls.trans hgains.calls_eq.symm
    · exact htrack.trans hgains.track_eq.symm
    · rw [Listing.shownWrites_stepLines, hplayed]
    · rw [hgains.chip_eq, hplayed]
      rfl

/-- Two writes with a tag without a meaning between them, and a fault at the end: two problems, and
seven files for the two writes. -/
theorem Replay.listing_extraction_agree_at_fault :
    let log : List UInt8 := ({ version := 0x150 } : Header).toBytes ++
      [0x52, 0xB0, 0x01, 0x05, 0x62, 0x52, 0x28, 0xF0]
    let source : Source := Source.ofBytes log ++ [.fault ⟨.other, "read failed"⟩]
    let writes : List Extraction.Write := [⟨0, 0xB0, 1⟩, ⟨0, 0x28, 0xF0⟩]
    ((Extraction.task none source "out" true).record {}).trouble = none ∧
      (Listing.task none source).outcome {} = .ok 2 ∧
      ∃ track n listed extracted lines,
        Runs Listing.turn (Listing.start none source track {}) n listed ∧
        Runs (Extraction.Session.turn "out" true) (Extraction.start none source "out" track {}) n
          extracted ∧
        ((Listing.task none source).record {}).lines = Listing.preamble track.header ++ lines ∧
        lines.filterMap Listing.shownWrite? = writes ∧
        extracted.writes = writes ∧ extracted.replay.problems = 2 := by
  intro log source writes
  let track : Track :=
    { path := none
      header := { eofOffset := 4, version := 0x150, dataOffset := 12 }
      cursor := ⟨Source.ofBytes (log.drop 64) ++ [.fault ⟨.other, "read failed"⟩], 64⟩ }
  have hopen : Track.open none source = .ok track := by cbv
  have hmake : ({} : Volume).makeDirectory "out" = .ok ⟨[(["out"], .directory)]⟩ := by cbv
  have hsteps : Extraction.writes track.steps = writes := by cbv
  have hproblems : Listing.problemCount track.steps = 2 := by cbv
  have hfiles : (Extraction.picked (Extraction.writes track.steps)).map Extraction.fileName =
      Extraction.twoVoiceFiles := by
    rw [hsteps]
    exact Extraction.fileNames_picked_twoVoices
  obtain ⟨final, hwrite⟩ := Extraction.exists_writeAll_twoVoiceFiles hfiles true
  have htouching := Extraction.touching_record hopen hmake hwrite
  have htrouble : ((Extraction.task none source "out" true).record {}).trouble = none := by
    rw [← Record.touching_trouble, htouching]
  have hlisting : (Listing.task none source).outcome {} = .ok 2 := by
    rw [Task.outcome_of_trouble_eq_none (Listing.trouble_task none source {}), ← hproblems]
    simp only [Listing.task, hopen]
  obtain ⟨hok, hagree⟩ :=
    Replay.listing_extraction_agree none source "out" true {} htrouble
  cases hextraction : (Extraction.task none source "out" true).outcome {} with
  | error trouble =>
    rw [hlisting, hextraction] at hok
    cases hok
  | ok summary =>
    obtain ⟨-, other, n, listed, extracted, lines, hother, hlists, hextracts, -, -, -, hcount, -, -,
      hlines, hshown, -⟩ := hagree 2 summary hlisting hextraction
    obtain rfl := Except.ok.inj (hopen.symm.trans hother)
    have hprinted := hlines.symm.trans (Listing.lines_task hopen {})
    have hwrites : lines.filterMap Listing.shownWrite? = writes := by
      rw [List.append_cancel_left hprinted, Listing.shownWrites_stepLines, hsteps]
    exact ⟨htrouble, hlisting, track, n, listed, extracted, lines, hlists, hextracts, hlines,
      hwrites, hshown.symm.trans hwrites, hcount⟩

end SoundLog
