import Mathlib
import SoundLog.Proofs.Extraction.FileNames
import SoundLog.Proofs.Extraction.Playing

/-!
# Files of an extraction

The dumps of a channel are numbered, so no two dumps of a run share a file name and no file is
written over. If the directory can be made and every file be written, an extraction succeeds,
whatever problems its log has, and leaves one file for each dump: the last one of a channel holds
the channel's last voice.
-/

namespace SoundLog
namespace Extraction

/-! ## Numbered dumps -/

theorem nodup_map_fileName {dumps : List Dump}
    (h : ∀ i, ((Dump.ofChannel dumps i).map Dump.sequence).Nodup) :
    (dumps.map fileName).Nodup := by
  induction dumps with
  | nil => exact List.nodup_nil
  | cons dump dumps ih =>
    have hown := h dump.channel
    rw [Dump.ofChannel_cons, if_pos rfl, List.map_cons, List.nodup_cons] at hown
    have hrest : ∀ i, ((Dump.ofChannel dumps i).map Dump.sequence).Nodup := by
      intro i
      have hi := h i
      rw [Dump.ofChannel_cons] at hi
      split at hi
      · exact (List.nodup_cons.mp hi).2
      · exact hi
    rw [List.map_cons, List.nodup_cons]
    refine ⟨?_, ih hrest⟩
    intro hmem
    obtain ⟨other, hother, hname⟩ := List.mem_map.mp hmem
    obtain ⟨hchannel, hsequence⟩ := fileName_inj hname
    have hchannels : other ∈ Dump.ofChannel dumps dump.channel :=
      List.mem_filter.mpr ⟨hother, decide_eq_true hchannel⟩
    exact hown.1 (List.mem_map.mpr ⟨other, hchannels, hsequence⟩)

theorem sequences_picked (writes : List Write) (i : Fin 6) :
    (Dump.ofChannel (picked writes) i).map Dump.sequence =
      List.range' 1 (Dump.ofChannel (picked writes) i).length :=
  (Tracker.remembers_select _ _ i).sequences_eq

theorem nodup_fileNames (writes : List Write) : ((picked writes).map fileName).Nodup := by
  refine nodup_map_fileName fun i => ?_
  rw [sequences_picked]
  exact List.nodup_range'

/-- The voices of a new chip after several writes. -/
def lastVoices (writes : List Write) : Vector Voice 6 :=
  (voicesAfter {} writes).getLastD ({} : Ym2612.Chip).voices

/-- The voice dumped last for a channel is the one it has at the end. -/
theorem getLast?_voicesOf (writes : List Write) (i : Fin 6) :
    (Tracker.voicesOf (picked writes) i).getLast? = some ((lastVoices writes).get i) := by
  have hlast : (({} : Ym2612.Chip).voices :: voicesAfter {} writes).getLast? =
      some (lastVoices writes) := by
    rw [List.getLast?_cons, ← List.getLastD_eq_getLast?]
    rfl
  obtain ⟨before, hhistory⟩ := List.getLast?_eq_some_iff.mp hlast
  rw [picked, Tracker.voicesOf_select, Tracker.distinct, getLast?_destutter, hhistory, settled_snoc,
    List.map_append, List.map_singleton, List.getLast?_concat]

/-- Each channel has a dump that is numbered highest and holds its last voice. -/
theorem exists_highest (writes : List Write) (i : Fin 6) :
    ∃ dump ∈ picked writes, dump.channel = i ∧ dump.voice = (lastVoices writes).get i ∧
      ∀ other ∈ picked writes, other.channel = i → other.sequence ≤ dump.sequence := by
  have hvoice := getLast?_voicesOf writes i
  rw [Tracker.voicesOf, List.getLast?_map] at hvoice
  obtain ⟨dump, hdump, hvoice⟩ := Option.map_eq_some_iff.mp hvoice
  obtain ⟨earlier, hdumps⟩ := List.getLast?_eq_some_iff.mp hdump
  have hsequences := sequences_picked writes i
  have hhighest : dump.sequence = (Dump.ofChannel (picked writes) i).length := by
    have hlast := congrArg List.getLast? hsequences
    rw [hdumps, List.map_append, List.map_singleton, List.getLast?_concat, List.length_append,
      List.length_singleton, List.range'_concat, List.getLast?_concat] at hlast
    rw [hdumps, List.length_append, List.length_singleton, Option.some.inj hlast]
    omega
  obtain ⟨hmem, hchannel⟩ := List.mem_filter.mp (List.mem_of_getLast? hdump)
  refine ⟨dump, hmem, of_decide_eq_true hchannel, hvoice, ?_⟩
  intro other hother hsame
  have hnumber : other.sequence ∈ (Dump.ofChannel (picked writes) i).map Dump.sequence :=
    List.mem_map_of_mem (List.mem_filter.mpr ⟨hother, decide_eq_true hsame⟩)
  rw [hsequences, List.mem_range'_1] at hnumber
  omega

/-! ## A whole run -/

def savedFile (output : String) (dx7 : Bool) (dump : Dump) : String × List UInt8 :=
  (filePath output dump, (fileText dx7 dump).toUTF8.toList)

theorem apart_savedFiles (output : String) (dx7 : Bool) (writes : List Write) :
    ((picked writes).map (savedFile output dx7)).Pairwise fun file later =>
      Volume.Apart file.1 later.1 := by
  refine List.pairwise_map.mpr ((List.pairwise_map.mp (nodup_fileNames writes)).imp ?_)
  intro dump other hne
  exact apart_filePath hne

theorem ofActions_saving {output : String} {dx7 : Bool} {dumps : List Dump} {made final : Volume}
    (h : made.writeAll (dumps.map (savedFile output dx7)) = .ok final) :
    Record.ofActions (dumps.map (saving output dx7)) made =
      ⟨dumps.map (saving output dx7), final, none⟩ := by
  have hfiles : (dumps.map fun dump => (filePath output dump, fileText dx7 dump)).map
      (fun file => (file.1, file.2.toUTF8.toList)) = dumps.map (savedFile output dx7) :=
    List.map_map
  have hrecord := Record.ofActions_saves (hfiles ▸ h)
  rwa [List.map_map] at hrecord

theorem touching_record_of_make {path : Option String} {source : Source} {track : Track}
    {output : String} {dx7 : Bool} {volume made : Volume}
    (hopen : Track.open path source = .ok track)
    (hmake : volume.makeDirectory output = .ok made) :
    let saves := Record.ofActions ((picked (writes track.steps)).map (saving output dx7)) made
    ((task path source output dx7).record volume).touching =
      { saves with done := .makeDirectory output :: saves.done } := by
  obtain ⟨hplan, -⟩ := task_of_open hopen output dx7
  have hfilter := Record.ofActions_filter (task path source output dx7).actions volume
  rw [hplan, Record.ofActions_cons_ok (Action.effect_makeDirectory hmake)] at hfilter
  exact hfilter.symm

theorem touching_record {path : Option String} {source : Source} {track : Track} {output : String}
    {dx7 : Bool} {volume made final : Volume} (hopen : Track.open path source = .ok track)
    (hmake : volume.makeDirectory output = .ok made)
    (hwrite : made.writeAll ((picked (writes track.steps)).map (savedFile output dx7)) =
      .ok final) :
    ((task path source output dx7).record volume).touching =
      ⟨.makeDirectory output :: (picked (writes track.steps)).map (saving output dx7), final,
        none⟩ := by
  rw [touching_record_of_make hopen hmake, ofActions_saving hwrite]

/-- If the directory can be made and the files can be written, all that is picked is saved, each
dump in a file of its own that keeps what was written. -/
theorem task_saves_picked {path : Option String} {source : Source} {track : Track}
    {output : String} {dx7 : Bool} {volume made final : Volume}
    (hopen : Track.open path source = .ok track) (hmake : volume.makeDirectory output = .ok made)
    (hwrite : made.writeAll ((picked (writes track.steps)).map (savedFile output dx7)) =
      .ok final) :
    let dumps := picked (writes track.steps)
    let record := (task path source output dx7).record volume
    (task path source output dx7).outcome volume =
        .ok ⟨dumps.map (filePath output), Listing.problemCount track.steps⟩ ∧
      record.volume = final ∧
      record.done.filter Action.touches =
        .makeDirectory output :: dumps.map (saving output dx7) ∧
      (dumps.map fileName).Nodup ∧
      (∀ dump ∈ dumps, ∃ name, fileName dump = name ++ ".txt" ∧
        final.find (Path.join output (fileName dump)) = .ok (.file
          (dump.voice.text ++
            if dx7 then
              ({ name := name
                 algorithm := Dx7.Algorithm.nearest[Fin.ofNat 8 dump.voice.algorithm.toNat] } :
                Dx7.Voice).text
            else "").toUTF8.toList)) ∧
      ∀ i, ∃ dump ∈ dumps, dump.channel = i ∧ dump.voice = (lastVoices (writes track.steps)).get i ∧
        ∀ other ∈ dumps, other.channel = i → other.sequence ≤ dump.sequence := by
  intro dumps record
  have htouching := touching_record hopen hmake hwrite
  have hvolume : record.volume = final := by
    rw [← Record.touching_volume, htouching]
  have htrouble : record.trouble = none := by
    rw [← Record.touching_trouble, htouching]
  have hdone : record.done.filter Action.touches =
      .makeDirectory output :: dumps.map (saving output dx7) := by
    rw [← Record.touching_done, htouching]
  refine ⟨?_, hvolume, hdone, nodup_fileNames _, ?_, exists_highest (writes track.steps)⟩
  · rw [Task.outcome_of_trouble_eq_none htrouble]
    exact (task_of_open hopen output dx7).2
  · intro dump hdump
    have hfound : final.find (filePath output dump) =
        .ok (.file (fileText dx7 dump).toUTF8.toList) :=
      Volume.find_writeAll (apart_savedFiles output dx7 _) hwrite (savedFile output dx7 dump)
        (List.mem_map_of_mem hdump)
    exact ⟨stem dump, rfl, hfound⟩

/-- The names of the files when the first channel gets a second voice. -/
def twoVoiceFiles : List String :=
  ["ch00-0001.txt", "ch01-0001.txt", "ch02-0001.txt", "ch03-0001.txt", "ch04-0001.txt",
    "ch05-0001.txt", "ch00-0002.txt"]

set_option maxRecDepth 2000 in
theorem fileNames_picked_twoVoices :
    (picked [⟨0, 0xB0, 1⟩, ⟨0, 0x28, 0xF0⟩]).map fileName = twoVoiceFiles := by cbv

theorem resolve_twoVoiceFile (volume : Volume) {name : String} (h : name ∈ twoVoiceFiles) :
    volume.resolve (Path.join "out" name) = volume.walk [] ["out", name] := by
  have hsteps : ∀ name ∈ twoVoiceFiles, Path.steps (Path.join "out" name) = ["out", name] := by
    decide +kernel
  have hrefusals : twoVoiceFiles.all (fun name => Volume.refusal? (Path.join "out" name) = none) =
      true := by
    cbv
  have hrefusal := of_decide_eq_true (List.all_eq_true.mp hrefusals name h)
  rw [Volume.resolve, hrefusal, hsteps name h]

theorem exists_writeAll_twoVoiceFiles {dumps : List Dump} (h : dumps.map fileName = twoVoiceFiles)
    (dx7 : Bool) :
    ∃ final, Volume.writeAll ⟨[(["out"], .directory)]⟩ (dumps.map (savedFile "out" dx7)) =
      .ok final := by
  let made : Volume := ⟨[(["out"], .directory)]⟩
  have hwalks : ∀ name ∈ twoVoiceFiles, made.walk [] ["out", name] = .ok ["out", name] ∧
      made.entry? ["out", name] ≠ some .directory := by decide +kernel
  refine Volume.exists_writeAll fun file hfile => ?_
  obtain ⟨dump, hdump, rfl⟩ := List.mem_map.mp hfile
  have hname : fileName dump ∈ twoVoiceFiles := h ▸ List.mem_map_of_mem hdump
  obtain ⟨hwalk, hplace⟩ := hwalks _ hname
  refine Volume.accepts_iff.mpr ⟨["out", fileName dump], ?_, hplace⟩
  exact (resolve_twoVoiceFile made hname).trans hwalk

/-- A log with a voice that settles behind a byte that stands for nothing. -/
theorem task_saves_twoVoices :
    let log : List UInt8 := ({ version := 0x150 } : Header).toBytes ++
      [0x52, 0xB0, 0x01, 0x00, 0x52, 0x28, 0xF0, 0x66]
    let source : Source := Source.ofBytes log
    ({} : Volume).makeDirectory "out" = .ok ⟨[(["out"], .directory)]⟩ ∧
      (task none source "out" true).outcome {} =
        .ok ⟨twoVoiceFiles.map (Path.join "out"), 1⟩ := by
  intro log source
  let track : Track :=
    { path := none
      header := { eofOffset := 4, version := 0x150, dataOffset := 12 }
      cursor := ⟨Source.ofBytes (log.drop 64), 64⟩ }
  have hopen : Track.open none source = .ok track := by cbv
  have hmake : ({} : Volume).makeDirectory "out" = .ok ⟨[(["out"], .directory)]⟩ := by cbv
  have hwrites : writes track.steps = [⟨0, 0xB0, 1⟩, ⟨0, 0x28, 0xF0⟩] := by cbv
  have hfiles : (picked (writes track.steps)).map fileName = twoVoiceFiles :=
    hwrites ▸ fileNames_picked_twoVoices
  obtain ⟨final, hwrite⟩ := exists_writeAll_twoVoiceFiles hfiles true
  obtain ⟨houtcome, -⟩ := task_saves_picked hopen hmake hwrite
  have hpaths : (picked (writes track.steps)).map (filePath "out") =
      twoVoiceFiles.map (Path.join "out") := by
    rw [← hfiles, List.map_map]
    rfl
  have hproblems : Listing.problemCount track.steps = 1 := by cbv
  rw [hpaths, hproblems] at houtcome
  exact ⟨hmake, houtcome⟩

end Extraction
end SoundLog
