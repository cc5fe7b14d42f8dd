import Mathlib
import SoundLog.Proofs.Replay.Lines
import SoundLog.Proofs.Replay.Listing
import SoundLog.Proofs.Track.Acceptance

/-!
# The places that a listing shows

The line of a command shows the place at which the command was asked for. If reserved opcodes come
first, the tag of the command stands behind them, and at the place shown stands the first of their
tags, which is that of no command. So a line shows the place of its own command just if there is no
opcode in front of it.
-/

namespace SoundLog

namespace Command

theorem Opcode.tag_ne {version : UInt32} (opcode : Opcode version) (kind : Kind) :
    opcode.tag ≠ kind.tag := by
  have hreserved : reservedLength? ({ version } : Header).hasWideReserved opcode.tag =
      some opcode.payload.length := reservedLength?_eq_some_iff.mpr opcode.reserved
  intro heq
  rw [heq, Kind.reservedLength?_tag] at hreserved
  cases hreserved

end Command

namespace Listing

open Command

variable {version : UInt32} {item : Item} {opcodes : List (Opcode version)} {log : List UInt8}

namespace Item

/-- The opcodes stand in the log from the place of the item on, and behind them its command. -/
def StandsBehind (item : Item) (opcodes : List (Opcode version)) (log : List UInt8) : Prop :=
  ∃ stored, Stored item.command stored ∧ Opcode.join opcodes ++ stored <+: log.drop item.place

theorem StandsBehind.tag_eq (h : item.StandsBehind opcodes log) :
    log[item.place + (Opcode.join opcodes).length]? = some item.command.kind.tag := by
  obtain ⟨stored, ⟨hne, contents, -, rfl⟩, rest, hlog⟩ := h
  rw [← List.getElem?_drop, ← hlog, List.append_assoc, List.getElem?_append_right (Nat.le_refl _),
    Nat.sub_self, encode_eq_cons hne, List.cons_append, List.getElem?_cons_zero]

theorem StandsBehind.tag_eq_iff (h : item.StandsBehind opcodes log) :
    log[item.place]? = some item.command.kind.tag ↔ opcodes = [] := by
  cases opcodes with
  | nil => exact iff_of_true h.tag_eq rfl
  | cons opcode opcodes =>
    obtain ⟨stored, -, rest, hlog⟩ := h
    have hfirst : log[item.place]? = some opcode.tag := by
      rw [← Nat.add_zero item.place, ← List.getElem?_drop, ← hlog]
      rfl
    rw [hfirst]
    exact iff_of_false (fun heq => opcode.tag_ne _ (Option.some.inj heq)) (List.cons_ne_nil _ _)

theorem ofStep?_eq_some {step : Track.Step} (h : ofStep? step = some item) :
    step.outcome = .ok item.command ∧ item.command ≠ .eof ∧ item.place = step.start := by
  unfold ofStep? at h
  split at h
  · cases h
  · next command hne houtcome =>
    cases h
    exact ⟨houtcome, hne, rfl⟩
  · cases h

end Item

/-! ## Steps -/

variable {track : Track}

/-- What is shown of a call stands where the track stood. -/
theorem standsBehind_step (hplace : track.StandsAt log track.offset)
    (hitem : Item.ofStep? track.step = some item) :
    ∃ opcodes : List (Opcode track.header.version), item.StandsBehind opcodes log := by
  obtain ⟨houtcome, hne, hstart⟩ := Item.ofStep?_eq_some hitem
  cases hfinished : track.finished with
  | true =>
    rw [Track.step, Track.next_of_finished hfinished] at houtcome
    exact absurd (Except.ok.inj houtcome).symm hne
  | false =>
    rcases Track.next_cases hplace.intact hfinished with
      ⟨command, opcodes, stored, hnext, hstored, htakes⟩ | ⟨_, _, hnext, -⟩ | ⟨_, _, _, hnext, -⟩
    · obtain rfl := Except.ok.inj (hnext.symm.trans houtcome)
      refine ⟨opcodes, stored, hstored, ?_⟩
      rw [hstart, Track.Step.start, Track.step, ← hplace.left_eq, htakes.bytes_eq]
      exact List.prefix_append _ _
    · exact absurd (Except.ok.inj (houtcome.symm.trans hnext)) hne
    · cases houtcome.symm.trans hnext

theorem standsBehind_of_mem_items (hplace : track.StandsAt log track.offset) :
    ∀ item ∈ items track.steps,
      ∃ opcodes : List (Opcode track.header.version), item.StandsBehind opcodes log := by
  induction track using Track.steps_induction with
  | again track hcontinues ih =>
    intro item hitem
    rw [Track.steps_of_continues hcontinues] at hitem
    obtain ⟨step, hstep, hshown⟩ := List.mem_filterMap.mp hitem
    rcases List.mem_cons.mp hstep with rfl | hlater
    · exact standsBehind_step hplace hshown
    · have hbehind := ih hplace.step item (List.mem_filterMap.mpr ⟨step, hlater, hshown⟩)
      have hheader : track.step.after.header = track.header := track.header_next
      rwa [hheader] at hbehind
  | last track hcontinues =>
    intro item hitem
    rw [Track.steps_of_not_continues hcontinues] at hitem
    obtain ⟨step, hstep, hshown⟩ := List.mem_filterMap.mp hitem
    obtain rfl := List.mem_singleton.mp hstep
    exact standsBehind_step hplace hshown

/-- The lines of a listing below the table show the commands of the track, in order. The tag of a
command stands in the log behind the reserved opcodes that begin at the place shown, so it stands at
this place just if there are none. -/
theorem shows_own_place_iff {path : Option String} {source : Source} (hintact : source.Intact)
    (hopen : Track.open path source = .ok track) (shelf : Volume) :
    let log := source.bytes
    ((task path source).record shelf).lines =
      preamble track.header ++ (items track.steps).map Item.line ∧
    ∀ item ∈ items track.steps, ∃ opcodes : List (Opcode track.header.version),
      shownPlace item.line = item.place ∧ item.StandsBehind opcodes log ∧
      log[item.place + (Opcode.join opcodes).length]? = some item.command.kind.tag ∧
      (log[shownPlace item.line]? = some item.command.kind.tag ↔ opcodes = []) := by
  intro log
  refine ⟨?_, ?_⟩
  · rw [lines_task hopen, stepLines_eq]
  · intro item hitem
    have hshown : shownPlace item.line = item.place := shownPlace_commandLine _ _
    rcases Track.open_cases path hintact with
      ⟨other, hother, -, -, -, -, -, hstands, -⟩ | ⟨d, hd, -⟩
    · obtain rfl := Except.ok.inj (hopen.symm.trans hother)
      rw [← hstands.offset_eq] at hstands
      obtain ⟨opcodes, hbehind⟩ := standsBehind_of_mem_items hstands item hitem
      rw [hshown]
      exact ⟨opcodes, rfl, hbehind, hbehind.tag_eq, hbehind.tag_eq_iff⟩
    · cases hopen.symm.trans hd

/-- A log that comes in two pieces, without reserved opcodes. The tag with which the second command
begins has no meaning, and the lines behind it show the right places all the same. -/
theorem shows_own_place_in_pieces :
    let header : Header := { version := 0x160 }
    let pieces : Source :=
      Source.ofBytes (header.toBytes ++ [0x52, 0xB0]) ++ .interrupted ::
        Source.ofBytes [0x32, 0x05, 0x62, 0x66]
    ∃ track, pieces.Intact ∧ Track.open none pieces = .ok track ∧
      items track.steps =
        [⟨0x40, .ym2612Write 0 0xB0 0x32⟩, ⟨0x44, .wait735⟩, ⟨0x45, .endOfSoundData⟩] ∧
      ∀ item ∈ items track.steps, shownPlace item.line = item.place ∧
        item.StandsBehind ([] : List (Opcode track.header.version)) pieces.bytes := by
  intro header pieces
  let track : Track :=
    { path := none
      header := { eofOffset := 4, version := 0x160, dataOffset := 12 }
      cursor := ⟨Source.ofBytes [0x52, 0xB0] ++ .interrupted ::
        Source.ofBytes [0x32, 0x05, 0x62, 0x66], 64⟩ }
  have hintact : pieces.Intact := by decide
  have hopen : Track.open none pieces = .ok track := by cbv
  have hitems : items track.steps =
      [⟨0x40, .ym2612Write 0 0xB0 0x32⟩, ⟨0x44, .wait735⟩, ⟨0x45, .endOfSoundData⟩] := by cbv
  have htags : ∀ item ∈ items track.steps,
      pieces.bytes[item.place]? = some item.command.kind.tag := by
    rw [hitems]
    simp only [List.forall_mem_cons]
    refine ⟨by cbv, by cbv, by cbv, ?_⟩
    intro item hitem
    cases hitem
  refine ⟨track, hintact, hopen, hitems, ?_⟩
  intro item hitem
  obtain ⟨opcodes, hshown, hbehind, -, hiff⟩ := (shows_own_place_iff hintact hopen {}).2 item hitem
  rw [hshown] at hiff
  obtain rfl := hiff.mp (htags item hitem)
  exact ⟨hshown, hbehind⟩

/-- The reserved opcode in front of a wait makes the line of the wait show the place of the opcode,
two bytes in front of the tag of the wait. -/
theorem shows_other_place :
    let log : List UInt8 := ({ version := 0x150 } : Header).toBytes ++ [0x30, 0x00, 0x62, 0x66]
    let source : Source := Source.ofBytes log
    ∃ track, source.Intact ∧ Track.open none source = .ok track ∧
      ((task none source).record {}).lines = preamble track.header ++
        ["0x00000040 Wait735(0x62) samples=735", "0x00000043 EndOfSoundData(0x66)"] ∧
      log[0x40]? = some 0x30 ∧ Command.wait735.kind.tag = 0x62 ∧ log[0x42]? = some 0x62 := by
  intro log source
  let track : Track :=
    { path := none
      header := { eofOffset := 4, version := 0x150, dataOffset := 12 }
      cursor := ⟨Source.ofBytes [0x30, 0x00, 0x62, 0x66], 64⟩ }
  have hopen : Track.open none source = .ok track := by cbv
  have hitems : items track.steps = [⟨0x40, .wait735⟩, ⟨0x43, .endOfSoundData⟩] := by cbv
  have hwait : Item.line ⟨0x40, .wait735⟩ = "0x00000040 Wait735(0x62) samples=735" := by
    decide +kernel
  have hend : Item.line ⟨0x43, .endOfSoundData⟩ = "0x00000043 EndOfSoundData(0x66)" := by
    decide +kernel
  refine ⟨track, by decide, hopen, ?_, by cbv, rfl, by cbv⟩
  rw [lines_task hopen, stepLines_eq, hitems, List.map_cons, List.map_singleton, hwait, hend]

end Listing
end SoundLog
