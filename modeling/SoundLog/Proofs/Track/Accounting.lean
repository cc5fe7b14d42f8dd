import SoundLog.Proofs.Command.Accounting
import SoundLog.Proofs.Track.Calls

/-!
# What a call takes from a log

A track that stands at a place of its log takes the bytes from there to its new offset, whatever the
log holds. The main statement says for each outcome of a call what these bytes are. No byte is
invented, dropped or counted twice.
-/

namespace SoundLog
namespace Track

open Command

/-- The track stands at a place of its log, and just the rest of the log is to come. -/
structure StandsAt (track : Track) (log : List UInt8) (place : Nat) : Prop where
  intact : track.cursor.source.Intact
  left_eq : track.cursor.source.bytes = log.drop place
  offset_eq : track.offset = place
  place_le : place ≤ log.length

theorem StandsAt.of_takes {track later : Track} {log taken : List UInt8} {place : Nat}
    (hplace : track.StandsAt log place) (htakes : track.cursor.Takes taken later.cursor) :
    later.StandsAt log later.offset ∧ place ≤ later.offset ∧
      (log.drop place).take (later.offset - place) = taken := by
  have hoffset : later.offset = place + taken.length := by
    rw [← hplace.offset_eq]
    exact htakes.offset_eq
  have hlog : log.drop place = taken ++ later.cursor.source.bytes := by
    rw [← hplace.left_eq, htakes.bytes_eq]
  have hlength := congrArg List.length hlog
  have hle := hplace.place_le
  simp only [List.length_drop, List.length_append] at hlength
  refine ⟨⟨htakes.intact, ?_, rfl, by omega⟩, by omega, ?_⟩
  · rw [hoffset, ← List.drop_drop, hlog, List.drop_left]
  · rw [hoffset, Nat.add_sub_cancel_left, hlog, List.take_left]

theorem next_cases {track : Track} (hintact : track.cursor.source.Intact)
    (hunfinished : track.finished = false) :
    (∃ (command : Command) (opcodes : List (Opcode track.header.version)) (stored : List UInt8),
        track.next.1 = .ok command ∧ Stored command stored ∧
          track.cursor.Takes (Opcode.join opcodes ++ stored) track.next.2.cursor) ∨
      (∃ (opcodes : List (Opcode track.header.version)) (cut : List UInt8),
        track.next.1 = .ok .eof ∧ track.next.2.cursor.source.bytes = [] ∧
          Cut track.header.version cut ∧
            track.cursor.Takes (Opcode.join opcodes ++ cut) track.next.2.cursor) ∨
        ∃ (d : Diagnostic) (opcodes : List (Opcode track.header.version)) (bad : List UInt8),
          track.next.1 = .error d ∧ d.offset = track.next.2.offset ∧ d.problem.cause = none ∧
            Unrecognized track.header.version bad ∧
              track.cursor.Takes (Opcode.join opcodes ++ bad) track.next.2.cursor := by
  have haccount : Account track.header.version track.cursor
      (decode track.header.hasWideReserved track.cursor) := account_decode hintact
  cases hdecode : decode track.header.hasWideReserved track.cursor with
  | ok command cursor =>
    rw [hdecode] at haccount
    obtain ⟨opcodes, stored, hstored, htakes⟩ := haccount
    rw [next_of_ok hunfinished hdecode]
    exact Or.inl ⟨command, opcodes, stored, rfl, hstored, htakes⟩
  | error problem cursor =>
    rw [hdecode] at haccount
    obtain ⟨hproblem, hend, opcodes, cut, hcut, htakes⟩ |
      ⟨hproblem, hcause, opcodes, bad, hbad, htakes⟩ := haccount
    · rw [next_of_exhausted hunfinished hdecode hproblem]
      exact Or.inr (Or.inl ⟨opcodes, cut, rfl, hend, hcut, htakes⟩)
    · rw [next_of_problem hunfinished hdecode hproblem]
      exact Or.inr (Or.inr ⟨_, opcodes, bad, rfl, rfl, hcause, hbad, htakes⟩)

theorem next_takes {track : Track} (hintact : track.cursor.source.Intact) :
    ∃ taken, track.cursor.Takes taken track.next.2.cursor := by
  cases hfinished : track.finished with
  | true =>
    rw [next_of_finished hfinished]
    exact ⟨[], .refl hintact⟩
  | false =>
    rcases next_cases hintact hfinished with
      ⟨_, _, _, -, -, htakes⟩ | ⟨_, _, -, -, -, htakes⟩ | ⟨_, _, _, -, -, -, -, htakes⟩
    all_goals exact ⟨_, htakes⟩

theorem StandsAt.step {track : Track} {log : List UInt8} {place : Nat}
    (hplace : track.StandsAt log place) :
    track.step.after.StandsAt log track.step.after.offset := by
  obtain ⟨taken, htakes⟩ := next_takes hplace.intact
  exact (hplace.of_takes htakes).1

/-- A call that yields a command has taken reserved opcodes and the stored form of the command. One
that meets the end has used the log up, down to reserved opcodes and the beginning of something. One
that finds a problem stands behind reserved opcodes and the bytes that stand for nothing. -/
theorem next_accounts_for_bytes {track : Track} {log : List UInt8} {place : Nat}
    (hplace : track.StandsAt log place) (hunfinished : track.finished = false) :
    let after := track.next.2
    let taken := (log.drop place).take (after.offset - place)
    after.StandsAt log after.offset ∧ place ≤ after.offset ∧
      (∀ command, track.next.1 = .ok command → command ≠ .eof →
        ∃ (opcodes : List (Opcode track.header.version)) (stored : List UInt8),
          Stored command stored ∧ taken = Opcode.join opcodes ++ stored) ∧
      (track.next.1 = .ok .eof →
        after.offset = log.length ∧
          ∃ (opcodes : List (Opcode track.header.version)) (cut : List UInt8),
            Cut track.header.version cut ∧ log.drop place = Opcode.join opcodes ++ cut) ∧
      (∀ d, track.next.1 = .error d →
        d.offset = after.offset ∧ d.problem.cause = none ∧
          ∃ (opcodes : List (Opcode track.header.version)) (bad : List UInt8),
            Unrecognized track.header.version bad ∧ taken = Opcode.join opcodes ++ bad) := by
  intro after taken
  rcases next_cases hplace.intact hunfinished with
    ⟨command, opcodes, stored, hnext, hstored, htakes⟩ |
    ⟨opcodes, cut, hnext, hend, hcut, htakes⟩ |
    ⟨d, opcodes, bad, hnext, hoffset, hcause, hbad, htakes⟩
  · obtain ⟨hstands, hmoved, htaken⟩ := hplace.of_takes htakes
    refine ⟨hstands, hmoved, ?_, ?_, ?_⟩
    · intro other hother _
      obtain rfl := Except.ok.inj (hnext.symm.trans hother)
      exact ⟨opcodes, stored, hstored, htaken⟩
    · intro heof
      exact absurd (Except.ok.inj (hnext.symm.trans heof)) hstored.1
    · intro d herror
      cases hnext.symm.trans herror
  · obtain ⟨hstands, hmoved, htaken⟩ := hplace.of_takes htakes
    refine ⟨hstands, hmoved, ?_, ?_, ?_⟩
    · intro other hother hne
      exact absurd (Except.ok.inj (hnext.symm.trans hother)).symm hne
    · intro _
      have hge := List.drop_eq_nil_iff.mp (hstands.left_eq.symm.trans hend)
      refine ⟨Nat.le_antisymm hstands.place_le hge, opcodes, cut, hcut, ?_⟩
      rw [← hplace.left_eq, htakes.bytes_eq, hend, List.append_nil]
    · intro d herror
      cases hnext.symm.trans herror
  · obtain ⟨hstands, hmoved, htaken⟩ := hplace.of_takes htakes
    refine ⟨hstands, hmoved, ?_, ?_, ?_⟩
    · intro other hother
      cases hnext.symm.trans hother
    · intro heof
      cases hnext.symm.trans heof
    · intro other herror
      obtain rfl := Except.error.inj (hnext.symm.trans herror)
      exact ⟨hoffset, hcause, opcodes, bad, hbad, htaken⟩

/-- A data block behind an opcode, read in pieces from the second byte of a log. -/
theorem next_accounts_for_block :
    let log : List UInt8 :=
      [0x62, 0x31, 0x00, 0x67, 0x66, 0x01, 0x02, 0x00, 0x00, 0x00, 0xAA, 0xBB, 0x62]
    let track : Track :=
      { path := none
        header := { version := 0x150 }
        cursor := ⟨[.chunk 0x31 [], .chunk 0x00 [0x67], .interrupted,
          .chunk 0x66 [0x01, 0x02, 0x00, 0x00, 0x00, 0xAA], .chunk 0xBB [0x62]], 1⟩ }
    track.next.1 = .ok (.dataBlock 1 2) ∧
      ∃ (opcodes : List (Opcode 0x150)) (stored : List UInt8), Stored (.dataBlock 1 2) stored ∧
        (log.drop 1).take (track.next.2.offset - 1) = Opcode.join opcodes ++ stored := by
  intro log track
  have hplace : track.StandsAt log 1 := ⟨by decide, rfl, rfl, by decide⟩
  have houtcome : track.next.1 = .ok (.dataBlock 1 2) := by cbv
  obtain ⟨-, -, hcommand, -, -⟩ := next_accounts_for_bytes hplace rfl
  exact ⟨houtcome, hcommand _ houtcome (by decide)⟩

end Track
end SoundLog
