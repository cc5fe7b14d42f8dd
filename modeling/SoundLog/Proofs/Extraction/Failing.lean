import SoundLog.Proofs.Extraction.Files
import SoundLog.Proofs.Volume.Refusals

/-!
# Extractions that fail

An extraction stops at the first file that cannot be written. By then it has written the files that
come before that one in a run without trouble, with the same contents and in the same order, and it
has changed nothing else. Without a header it writes no file at all.
-/

namespace SoundLog
namespace Extraction

variable {path : Option String} {source : Source} {track : Track} {output : String} {dx7 : Bool}
  {volume made final : Volume}

/-! ## The first file that is refused -/

/-- If a file is refused, all in front of the first one that is can be written, and that one is
still refused when its turn comes. -/
theorem exists_first_refused (dx7 : Bool) {dumps : List Dump}
    (h : ∃ dump ∈ dumps, made.accepts (filePath output dump) = false) :
    ∃ front bad back final error, dumps = front ++ bad :: back ∧
      (∀ dump ∈ front, made.accepts (filePath output dump) = true) ∧
      made.writeAll (front.map (savedFile output dx7)) = .ok final ∧
      final.write (filePath output bad) (fileText dx7 bad).toUTF8.toList = .error error := by
  obtain ⟨dump, hdump, hrefused⟩ := h
  have hsome : (dumps.find? fun dump => !made.accepts (filePath output dump)).isSome := by
    rw [List.find?_isSome]
    exact ⟨dump, hdump, by rw [hrefused]; rfl⟩
  obtain ⟨bad, hfind⟩ := Option.isSome_iff_exists.mp hsome
  obtain ⟨hbad, front, back, hdumps, hfront⟩ := List.find?_eq_some_iff_append.mp hfind
  simp only [Bool.not_eq_true', Bool.not_not] at hbad hfront
  obtain ⟨final, hwrite⟩ : ∃ final,
      made.writeAll (front.map (savedFile output dx7)) = .ok final := by
    apply Volume.exists_writeAll
    rw [List.forall_mem_map]
    exact hfront
  rw [← Volume.accepts_writeAll hwrite, Volume.accepts_eq_false_iff] at hbad
  obtain ⟨error, herror⟩ := hbad
  exact ⟨front, bad, back, final, error, hdumps, hfront, hwrite, herror⟩

/-- Files that are saved earlier are apart from each other and from those saved later. -/
theorem apart_of_picked_eq_append {writes : List Write} {front back : List Dump}
    (h : picked writes = front ++ back) (output : String) (dx7 : Bool) :
    ((front.map (savedFile output dx7)).Pairwise fun file later => Volume.Apart file.1 later.1) ∧
      ∀ dump ∈ back, ∀ file ∈ front.map (savedFile output dx7),
        Volume.Apart (filePath output dump) file.1 := by
  have hapart := apart_savedFiles output dx7 writes
  rw [h, List.map_append, List.pairwise_append] at hapart
  obtain ⟨hfront, -, hback⟩ := hapart
  refine ⟨hfront, ?_⟩
  intro dump hdump file hfile
  exact (hback file hfile _ (List.mem_map_of_mem hdump)).symm

theorem ofActions_saving_refused {front back : List Dump} {bad : Dump} {error : SystemError}
    (hfront : made.writeAll (front.map (savedFile output dx7)) = .ok final)
    (hbad : final.write (filePath output bad) (fileText dx7 bad).toUTF8.toList = .error error) :
    Record.ofActions ((front ++ bad :: back).map (saving output dx7)) made =
      ⟨front.map (saving output dx7), final, some (.writeVoice (filePath output bad) error)⟩ := by
  have heffect : (saving output dx7 bad).effect final =
      .error (.writeVoice (filePath output bad) error) := by
    rw [saving, Action.effect, hbad]
    rfl
  rw [List.map_append, List.map_cons, ← Record.idle_carryOut, Record.carryOut_append,
    Record.idle_carryOut, ofActions_saving hfront, Record.carryOut_cons_error rfl heffect]

theorem touching_record_refused {front back : List Dump} {bad : Dump} {error : SystemError}
    (hopen : Track.open path source = .ok track) (hmake : volume.makeDirectory output = .ok made)
    (hdumps : picked (writes track.steps) = front ++ bad :: back)
    (hfront : made.writeAll (front.map (savedFile output dx7)) = .ok final)
    (hbad : final.write (filePath output bad) (fileText dx7 bad).toUTF8.toList = .error error) :
    ((task path source output dx7).record volume).touching =
      ⟨.makeDirectory output :: front.map (saving output dx7), final,
        some (.writeVoice (filePath output bad) error)⟩ := by
  rw [touching_record_of_make hopen hmake, hdumps, ofActions_saving_refused hfront hbad]

theorem touching_done_of_trouble_eq_none (hopen : Track.open path source = .ok track)
    (h : ((task path source output dx7).record volume).trouble = none) :
    ((task path source output dx7).record volume).done.filter Action.touches =
      .makeDirectory output :: (picked (writes track.steps)).map (saving output dx7) := by
  obtain ⟨hplan, -⟩ := task_of_open hopen output dx7
  have hdone : ((task path source output dx7).record volume).done =
      (task path source output dx7).actions := Record.done_of_trouble_eq_none h
  rw [hdone, hplan]

/-! ## Without a header -/

/-- Without a header there are no actions but making the directory and taking notes. -/
theorem touching_record_of_rejected {d : Diagnostic} (h : Track.open path source = .error d)
    (volume : Volume) :
    ((task path source output dx7).record volume).touching =
      Record.ofActions [.makeDirectory output] volume := by
  have hplan : (task path source output dx7).actions.filter Action.touches =
      [.makeDirectory output] := by
    simp [task, h, List.filter_cons, Action.touches]
  have hfilter := Record.ofActions_filter (task path source output dx7).actions volume
  rw [hplan] at hfilter
  exact hfilter.symm

theorem result_of_rejected {d : Diagnostic} (h : Track.open path source = .error d)
    (output : String) (dx7 : Bool) :
    (task path source output dx7).result = .error (.header d) := by
  simp only [task, h]

theorem ofActions_makeDirectory (output : String) (volume : Volume) :
    let record := Record.ofActions [.makeDirectory output] volume
    (∀ path text, Action.save path text ∉ record.done) ∧ Volume.SameFiles volume record.volume ∧
      (volume.find output = .ok .directory → record.trouble = none ∧ record.volume = volume) := by
  intro record
  cases hmake : volume.makeDirectory output with
  | error error =>
    have heffect : (Action.makeDirectory output).effect volume =
        .error (.makeOutput output error) := by
      rw [Action.effect, hmake]
      rfl
    have hrecord : record = ⟨[], volume, some (.makeOutput output error)⟩ :=
      Record.ofActions_cons_error heffect
    rw [hrecord]
    refine ⟨fun _ _ => List.not_mem_nil, .refl volume, ?_⟩
    intro hexists
    cases (Volume.makeDirectory_of_find hexists).symm.trans hmake
  | ok made =>
    have hrecord : record = ⟨[.makeDirectory output], made, none⟩ :=
      Record.ofActions_cons_ok (Action.effect_makeDirectory hmake)
    rw [hrecord]
    refine ⟨by simp, .of_makeDirectory hmake, ?_⟩
    intro hexists
    exact ⟨rfl, Except.ok.inj (hmake.symm.trans (Volume.makeDirectory_of_find hexists))⟩

/-! ## A whole run -/

/-- An extraction that fails has written the files in front of the first one that is refused, and
none without a header. -/
theorem task_saves_front (path : Option String) (source : Source) (output : String) (dx7 : Bool)
    (volume : Volume) :
    let extraction := task path source output dx7
    let record := extraction.record volume
    (∀ track, Track.open path source = .ok track → volume.find output = .ok .directory →
      (∃ dump ∈ picked (writes track.steps), ∃ error,
        volume.write (filePath output dump) (fileText dx7 dump).toUTF8.toList = .error error) →
      ∃ front bad back error, picked (writes track.steps) = front ++ bad :: back ∧
        (∀ dump ∈ front, ∃ changed,
          volume.write (filePath output dump) (fileText dx7 dump).toUTF8.toList = .ok changed) ∧
        record.volume.write (filePath output bad) (fileText dx7 bad).toUTF8.toList =
          .error error ∧
        extraction.outcome volume = .error (.writeVoice (filePath output bad) error) ∧
        record.done.filter Action.touches =
          .makeDirectory output :: front.map (saving output dx7) ∧
        (∀ ideal, (extraction.record ideal).trouble = none →
          (extraction.record ideal).done.filter Action.touches =
            record.done.filter Action.touches ++ (bad :: back).map (saving output dx7)) ∧
        volume.writeAll (front.map (savedFile output dx7)) = .ok record.volume ∧
        (∀ dump ∈ front, record.volume.find (filePath output dump) =
          .ok (.file (fileText dx7 dump).toUTF8.toList)) ∧
        (∀ dump ∈ bad :: back, ∀ entry, record.volume.find (filePath output dump) = .ok entry ↔
          volume.find (filePath output dump) = .ok entry) ∧
        ∀ place, (∀ dump ∈ front, volume.resolve (filePath output dump) ≠ .ok place) →
          record.volume.entry? place = volume.entry? place) ∧
    ∀ d, Track.open path source = .error d →
      (∃ trouble, extraction.outcome volume = .error trouble) ∧
      (∀ path text, Action.save path text ∉ record.done) ∧
      Volume.SameFiles volume record.volume ∧
      (volume.find output = .ok .directory →
        extraction.outcome volume = .error (.header d) ∧ record.volume = volume) := by
  intro extraction record
  constructor
  · intro track hopen hexists hfails
    simp only [← Volume.accepts_eq_false_iff] at hfails
    obtain ⟨front, bad, back, final, error, hdumps, hfront, hwrite, hbad⟩ :=
      exists_first_refused dx7 hfails
    have hmake := Volume.makeDirectory_of_find hexists
    have htouching := touching_record_refused hopen hmake hdumps hwrite hbad
    have hdone : record.done.filter Action.touches =
        .makeDirectory output :: front.map (saving output dx7) := congrArg Record.done htouching
    obtain rfl : record.volume = final := congrArg Record.volume htouching
    have htrouble : record.trouble = some (.writeVoice (filePath output bad) error) :=
      congrArg Record.trouble htouching
    obtain ⟨hapart, hlater⟩ := apart_of_picked_eq_append hdumps output dx7
    refine ⟨front, bad, back, error, hdumps, ?_, hbad, ?_, hdone, ?_, hwrite, ?_, ?_, ?_⟩
    · intro dump hdump
      exact Volume.exists_write_of_accepts (hfront dump hdump) _
    · exact Task.outcome_of_trouble_eq_some htrouble
    · intro ideal hideal
      rw [touching_done_of_trouble_eq_none hopen hideal, hdone, hdumps, List.map_append,
        List.cons_append]
    · intro dump hdump
      exact Volume.find_writeAll hapart hwrite _ (List.mem_map_of_mem hdump)
    · intro dump hdump entry
      exact Volume.find_writeAll_iff (hlater dump hdump) hwrite
    · intro place hplace
      apply Volume.entry_writeAll hwrite
      rw [List.forall_mem_map]
      exact hplace
  · intro d hreject
    have htouching : record.touching = Record.ofActions [.makeDirectory output] volume :=
      touching_record_of_rejected hreject volume
    obtain ⟨hsaves, hfiles, hexists⟩ := ofActions_makeDirectory output volume
    rw [← htouching] at hsaves hfiles hexists
    have hresult : extraction.result = .error (.header d) := result_of_rejected hreject output dx7
    refine ⟨?_, ?_, hfiles, ?_⟩
    · cases htrouble : record.trouble with
      | none => exact ⟨_, (Task.outcome_of_trouble_eq_none htrouble).trans hresult⟩
      | some trouble => exact ⟨trouble, Task.outcome_of_trouble_eq_some htrouble⟩
    · intro path text hmem
      exact hsaves path text (List.mem_filter.mpr ⟨hmem, rfl⟩)
    · intro hdirectory
      obtain ⟨htrouble, hvolume⟩ := hexists hdirectory
      exact ⟨(Task.outcome_of_trouble_eq_none htrouble).trans hresult, hvolume⟩

/-- A directory that is in the way of one of the files. -/
theorem accepts_twoVoiceFile {name : String} (h : name ∈ twoVoiceFiles) :
    Volume.accepts ⟨[(["out"], .directory), (["out", "ch03-0001.txt"], .directory)]⟩
      (Path.join "out" name) = decide (name ≠ "ch03-0001.txt") := by
  rw [Volume.accepts, resolve_twoVoiceFile _ h]
  revert name
  decide +kernel

/-- A directory stands where the fourth file would be, and another log has no header. -/
theorem task_saves_three :
    let log : List UInt8 := ({ version := 0x150 } : Header).toBytes ++
      [0x52, 0xB0, 0x01, 0x00, 0x52, 0x28, 0xF0, 0x66]
    let volume : Volume := ⟨[(["out"], .directory), (["out", "ch03-0001.txt"], .directory)]⟩
    let extraction := task none (.ofBytes log) "out" true
    let record := extraction.record volume
    let rejected := (task none (.ofBytes (log.drop 1)) "out" true).record volume
    (∃ (front : List Dump) (error : SystemError),
      front.map fileName = ["ch00-0001.txt", "ch01-0001.txt", "ch02-0001.txt"] ∧
        extraction.outcome volume = .error (.writeVoice "out/ch03-0001.txt" error) ∧
        record.done.filter Action.touches =
          .makeDirectory "out" :: front.map (saving "out" true) ∧
        volume.writeAll (front.map (savedFile "out" true)) = .ok record.volume) ∧
      (∀ path text, Action.save path text ∉ rejected.done) ∧ rejected.volume = volume := by
  intro log volume extraction record rejected
  let track : Track :=
    { path := none
      header := { eofOffset := 4, version := 0x150, dataOffset := 12 }
      cursor := ⟨Source.ofBytes (log.drop 64), 64⟩ }
  have hopen : Track.open none (.ofBytes log) = .ok track := by cbv
  have hexists : volume.find "out" = .ok .directory := by cbv
  have hwrites : writes track.steps = [⟨0, 0xB0, 1⟩, ⟨0, 0x28, 0xF0⟩] := by cbv
  have hnames : (picked (writes track.steps)).map fileName = twoVoiceFiles :=
    hwrites ▸ fileNames_picked_twoVoices
  have haccepts : ∀ dump ∈ picked (writes track.steps),
      volume.accepts (filePath "out" dump) = decide (fileName dump ≠ "ch03-0001.txt") := by
    intro dump hdump
    exact accepts_twoVoiceFile (hnames ▸ List.mem_map_of_mem hdump)
  have hfails : ∃ dump ∈ picked (writes track.steps), ∃ error, volume.write (filePath "out" dump)
      (fileText true dump).toUTF8.toList = .error error := by
    have hblocked : "ch03-0001.txt" ∈ (picked (writes track.steps)).map fileName := by
      rw [hnames]
      decide
    obtain ⟨dump, hdump, hname⟩ := List.mem_map.mp hblocked
    refine ⟨dump, hdump, Volume.accepts_eq_false_iff.mp ?_⟩
    rw [haccepts dump hdump, hname]
    rfl
  obtain ⟨hrun, -⟩ := task_saves_front none (.ofBytes log) "out" true volume
  obtain ⟨front, bad, back, error, hdumps, hfront, hbad, houtcome, hdone, -, hwrite, -⟩ :=
    hrun track hopen hexists hfails
  have hbad : fileName bad = "ch03-0001.txt" := by
    have hrefused := Volume.accepts_eq_false_iff.mpr ⟨error, hbad⟩
    rw [Volume.accepts_writeAll hwrite, haccepts bad (by simp [hdumps])] at hrefused
    exact not_not.mp (of_decide_eq_false hrefused)
  have hfront : ∀ name ∈ front.map fileName, decide (name ≠ "ch03-0001.txt") = true := by
    rw [List.forall_mem_map]
    intro dump hdump
    rw [← haccepts dump (by simp [hdumps, hdump])]
    obtain ⟨changed, hchanged⟩ := hfront dump hdump
    exact Volume.accepts_of_write hchanged
  have hthree : front.map fileName = twoVoiceFiles.takeWhile (· ≠ "ch03-0001.txt") := by
    rw [← hnames, hdumps, List.map_append, List.takeWhile_append_of_pos hfront, List.map_cons, hbad,
      List.takeWhile_cons_of_neg (by decide), List.append_nil]
  have hpath : filePath "out" bad = "out/ch03-0001.txt" := by
    rw [filePath, hbad]
    decide +kernel
  rw [hpath] at houtcome
  obtain ⟨-, hheaderless⟩ := task_saves_front none (.ofBytes (log.drop 1)) "out" true volume
  obtain ⟨d, hreject⟩ : ∃ d, Track.open none (.ofBytes (log.drop 1)) = .error d := ⟨_, by cbv⟩
  obtain ⟨-, hsaves, -, hkeeps⟩ := hheaderless d hreject
  exact ⟨⟨front, error, hthree.trans (by decide), houtcome, hdone, hwrite⟩, hsaves,
    (hkeeps hexists).2⟩

end Extraction
end SoundLog
