import SoundLog.Proofs.Extraction.Files
import SoundLog.Proofs.Ym2612.VoiceWrites

/-!
# What an extraction depends on

The writes to voice registers and their places among all writes to the chip decide what an
extraction saves. What the other writes are, and all else that the logs hold, has no part in it.
-/

namespace SoundLog
namespace Extraction

open Ym2612

/-- The writes are the same, unless neither of them is to a voice register. -/
def Write.Agree (left right : Write) : Prop :=
  IsVoiceRegister left.register ∨ IsVoiceRegister right.register → left = right

theorem Write.Agree.voices_eq {left right : Write} (h : left.Agree right) {chip chip' : Chip}
    (hvoices : chip.voices = chip'.voices) :
    (chip.write left.port left.register left.value).voices =
      (chip'.write right.port right.register right.value).voices := by
  by_cases hvoice : IsVoiceRegister left.register ∨ IsVoiceRegister right.register
  · obtain rfl := h hvoice
    exact Chip.voices_write_congr hvoices _ _ _
  · obtain ⟨hleft, hright⟩ := not_or.mp hvoice
    rw [Chip.voices_write_of_not_voice _ _ hleft, Chip.voices_write_of_not_voice _ _ hright,
      hvoices]

theorem voicesAfter_congr {left right : List Write} (h : List.Forall₂ Write.Agree left right)
    {chip chip' : Chip} (hvoices : chip.voices = chip'.voices) :
    voicesAfter chip left = voicesAfter chip' right := by
  induction h generalizing chip chip' with
  | nil => rfl
  | cons hwrite _ ih =>
    have hnext := hwrite.voices_eq hvoices
    rw [voicesAfter, voicesAfter, hnext, ih hnext]

theorem picked_congr {left right : List Write} (h : List.Forall₂ Write.Agree left right) :
    picked left = picked right := by
  rw [picked, voicesAfter_congr h rfl, picked]

/-- Two logs whose writes to the chip agree one by one lead to the same files with the same
contents, in the same order. On equal volumes this is so even if not all of them can be written. -/
theorem tasks_save_same {path path' : Option String} {source source' : Source}
    {track track' : Track} (hopen : Track.open path source = .ok track)
    (hopen' : Track.open path' source' = .ok track')
    (hwrites : List.Forall₂ Write.Agree (writes track.steps) (writes track'.steps))
    (output : String) (dx7 : Bool) :
    let left := task path source output dx7
    let right := task path' source' output dx7
    (∀ volume, (left.record volume).touching = (right.record volume).touching ∧
        (left.outcome volume).map Summary.written = (right.outcome volume).map Summary.written) ∧
      ∀ volume volume', (left.record volume).trouble = none →
        (right.record volume').trouble = none →
          (left.record volume).done.filter Action.touches =
            (right.record volume').done.filter Action.touches ∧
          (left.outcome volume).map Summary.written =
            (right.outcome volume').map Summary.written := by
  intro left right
  obtain ⟨hplan, hresult⟩ := task_of_open hopen output dx7
  obtain ⟨hplan', hresult'⟩ := task_of_open hopen' output dx7
  have hsame : left.actions.filter Action.touches = right.actions.filter Action.touches := by
    rw [hplan, hplan', picked_congr hwrites]
  have hwritten : left.result.map Summary.written = right.result.map Summary.written := by
    rw [hresult, hresult', picked_congr hwrites]
    rfl
  refine ⟨?_, ?_⟩
  · intro volume
    have htouching : (left.record volume).touching = (right.record volume).touching := by
      rw [Task.record, Task.record, ← Record.ofActions_filter, ← Record.ofActions_filter, hsame]
    have htrouble : (left.record volume).trouble = (right.record volume).trouble := by
      rw [← Record.touching_trouble, htouching, Record.touching_trouble]
    refine ⟨htouching, ?_⟩
    unfold Task.outcome
    rw [htrouble]
    cases (right.record volume).trouble with
    | none => exact hwritten
    | some trouble => rfl
  · intro volume volume' htrouble htrouble'
    have hdone : (left.record volume).done = left.actions :=
      Record.done_of_trouble_eq_none htrouble
    have hdone' : (right.record volume').done = right.actions :=
      Record.done_of_trouble_eq_none htrouble'
    refine ⟨by rw [hdone, hdone', hsame], ?_⟩
    rw [Task.outcome_of_trouble_eq_none htrouble, Task.outcome_of_trouble_eq_none htrouble',
      hwritten]

/-- A log with a key that is turned on, and one of another version that sets a pitch instead,
between waits and a data block. -/
theorem tasks_save_same_twoVoices :
    let log : List UInt8 := ({ version := 0x150 } : Header).toBytes ++
      [0x52, 0xB0, 0x01, 0x00, 0x52, 0x28, 0xF0, 0x66]
    let log' : List UInt8 := ({ version := 0x151, sampleCount := 735 } : Header).toBytes ++
      [0x62, 0x52, 0xB0, 0x01, 0x67, 0x66, 0x00, 0x01, 0x00, 0x00, 0x00, 0xAA, 0x53, 0xA4, 0x22]
    let left := task none (Source.ofBytes log) "out" true
    let right := task (some "log") (Source.ofBytes log') "out" true
    (left.record {}).trouble = none ∧ (right.record {}).trouble = none ∧
      (left.record {}).done.filter Action.touches = (right.record {}).done.filter Action.touches ∧
      (left.record {}).volume = (right.record {}).volume := by
  intro log log' left right
  let track : Track :=
    { path := none
      header := { eofOffset := 4, version := 0x150, dataOffset := 12 }
      cursor := ⟨Source.ofBytes (log.drop 64), 64⟩ }
  let track' : Track :=
    { path := some "log"
      header := { eofOffset := 4, version := 0x151, sampleCount := 735, dataOffset := 12 }
      cursor := ⟨Source.ofBytes (log'.drop 64), 64⟩ }
  have hopen : Track.open none (Source.ofBytes log) = .ok track := by cbv
  have hopen' : Track.open (some "log") (Source.ofBytes log') = .ok track' := by cbv
  have hleft : writes track.steps = [⟨0, 0xB0, 1⟩, ⟨0, 0x28, 0xF0⟩] := by cbv
  have hright : writes track'.steps = [⟨0, 0xB0, 1⟩, ⟨1, 0xA4, 0x22⟩] := by cbv
  have hagree : List.Forall₂ Write.Agree (writes track.steps) (writes track'.steps) := by
    rw [hleft, hright]
    exact .cons (fun _ => rfl) (.cons (fun hvoice => absurd hvoice (by decide)) .nil)
  have hmake : ({} : Volume).makeDirectory "out" = .ok ⟨[(["out"], .directory)]⟩ := by cbv
  obtain ⟨final, hwrite⟩ := exists_writeAll_twoVoiceFiles (hleft ▸ fileNames_picked_twoVoices) true
  have htouching := touching_record hopen hmake hwrite
  have hsame := ((tasks_save_same hopen hopen' hagree "out" true).1 {}).1
  have htrouble : (left.record {}).trouble = none := by
    rw [← Record.touching_trouble, htouching]
  refine ⟨htrouble, ?_, ?_, ?_⟩
  · rw [← Record.touching_trouble, ← hsame, Record.touching_trouble, htrouble]
  · rw [← Record.touching_done, hsame, Record.touching_done]
  · rw [← Record.touching_volume, hsame, Record.touching_volume]

end Extraction
end SoundLog
