import SoundLog.Proofs.Header.Sequence
import SoundLog.Proofs.Track.Accounting
import SoundLog.Proofs.Track.Opening

/-!
# Logs that are opened

Whether a log of an intact source is opened depends on its magic bytes, on its version and on its
length. The track of a log that is opened stands where the commands start, and a log that is not
opened is rejected for the first of the three that fails.
-/

namespace SoundLog
namespace Track

open Header

theorem open_cases (path : Option String) {source : Source} (hintact : source.Intact) :
    (∃ track, Track.open path source = .ok track ∧ 64 ≤ source.bytes.length ∧
        HasMagic source.bytes ∧ HasSupportedVersion source.bytes ∧
        commandsPlace source.bytes ≤ source.bytes.length ∧ track.header.Tells source.bytes ∧
        track.StandsAt source.bytes (max 64 (commandsPlace source.bytes)) ∧
        track.finished = false) ∨
      ∃ d, Track.open path source = .error d ∧ Rejects source.bytes d.problem d.offset := by
  obtain ⟨hproblem, hsize, hmagic, hversion, haccepted, htakes⟩ |
    ⟨problem, hproblem, hrejects⟩ := read_cases hintact
  · have hheader : ofBytes (read source).accepted = ofBytes source.bytes := by
      rw [haccepted, ofBytes_take]
    have hread : (read source).cursor.offset = 64 := by
      rw [htakes.offset_eq, List.length_take, Nat.min_eq_left hsize, Nat.zero_add]
    have hgap : gap (read source) = commandsPlace source.bytes - 64 := by
      rw [gap, hheader, dataOffset_eq, hread]
    obtain ⟨skipped, cursor, hskip, hlength, hskipped⟩ |
      ⟨skipped, cursor, failure, hskip, hfailure, hlength, hskipped, hend⟩ :=
      Reader.skip_reads (gap (read source)) (read source).cursor htakes.intact
    · have hall := htakes.trans hskipped
      have hplace : (source.bytes.take 64 ++ skipped).length =
          max 64 (commandsPlace source.bytes) := by
        rw [List.length_append, List.length_take, hlength, hgap]
        omega
      have htotal : source.bytes.length =
          (source.bytes.take 64 ++ skipped).length + cursor.source.bytes.length := hall.length_eq
      refine Or.inl ⟨_, open_of_skip hproblem hskip, hsize, hmagic, hversion, by omega, ?_,
        ⟨hall.intact, ?_, ?_, by omega⟩, rfl⟩
      · rw [hheader]
        exact tells_ofBytes source.bytes
      · rw [← hplace]
        exact hall.left_eq
      · rw [← hplace, ← Nat.zero_add (List.length _)]
        exact hall.offset_eq
    · have hall := htakes.trans hskipped
      have htotal : source.bytes.length =
          (source.bytes.take 64 ++ skipped).length + cursor.source.bytes.length := hall.length_eq
      rw [hend, List.length_nil, Nat.add_zero] at htotal
      have hplace : cursor.offset = source.bytes.length := by
        rw [hall.offset_eq, htotal, Nat.zero_add]
      have hshort : source.bytes.length < max 64 (commandsPlace source.bytes) := by
        rw [List.length_append, List.length_take] at htotal
        omega
      refine Or.inr ⟨_, open_of_skip_error hproblem hskip, ?_⟩
      change Rejects source.bytes _ cursor.offset
      rw [hplace]
      exact .short hshort (fun _ => hmagic) (fun _ => hversion) rfl hfailure
  · exact Or.inr ⟨_, open_of_problem hproblem, hrejects⟩

/-- A log that is not rejected has all that it takes to be opened. -/
theorem not_rejects {log : List UInt8} {problem : Problem} {offset : Nat} (hsize : 64 ≤ log.length)
    (hmagic : HasMagic log) (hversion : HasSupportedVersion log)
    (hplace : commandsPlace log ≤ log.length) : ¬ Rejects log problem offset := by
  rintro (⟨-, hno, -⟩ | ⟨-, -, hno, -⟩ | ⟨hshort, -, -, -, -⟩)
  · exact hno hmagic
  · exact hno hversion
  · omega

/-- The typed reads of the header, bound in their order, never fail an assertion, and they open
just the logs with a whole header of the right kind and all bytes in front of the commands. The
header of the track then tells what is stored, and the track stands at the commands. Other logs are
rejected by one diagnostic, for what fails first. -/
theorem open_decides (path : Option String) {source : Source} (hintact : source.Intact) :
    let log := source.bytes
    Opening.parse path source = (Track.open path source).mapError .report ∧
      ((∃ track, Track.open path source = .ok track) ↔
        64 ≤ log.length ∧ HasMagic log ∧ HasSupportedVersion log ∧
          commandsPlace log ≤ log.length) ∧
      (∀ track, Track.open path source = .ok track →
        track.header.Tells log ∧ track.StandsAt log (max 64 (commandsPlace log)) ∧
          track.finished = false) ∧
      ∀ d, Track.open path source = .error d → Rejects log d.problem d.offset := by
  intro log
  refine ⟨Opening.parse_eq_open path source, ?_⟩
  obtain ⟨track, hopen, hsize, hmagic, hversion, hplace, htells, hstands, hfinished⟩ |
    ⟨d, hopen, hrejects⟩ := open_cases path hintact
  · refine ⟨⟨fun _ => ⟨hsize, hmagic, hversion, hplace⟩, fun _ => ⟨track, hopen⟩⟩, ?_, ?_⟩
    · intro other hother
      obtain rfl := Except.ok.inj (hopen.symm.trans hother)
      exact ⟨htells, hstands, hfinished⟩
    · intro d hd
      cases hopen.symm.trans hd
  · refine ⟨⟨?_, ?_⟩, ?_, ?_⟩
    · rintro ⟨track, htrack⟩
      cases hopen.symm.trans htrack
    · rintro ⟨hsize, hmagic, hversion, hplace⟩
      exact absurd hrejects (not_rejects hsize hmagic hversion hplace)
    · intro track htrack
      cases hopen.symm.trans htrack
    · intro other hother
      obtain rfl := Except.error.inj (hopen.symm.trans hother)
      exact hrejects

/-- A log in two pieces whose commands start two bytes behind the header. -/
theorem opens_behind_gap :
    let log : List UInt8 := ({ version := 0x171, dataOffset := 66 } : Header).toBytes ++
      [0xAA, 0xBB, 0x62, 0x66]
    let source : Source :=
      Source.ofBytes (log.take 30) ++ .interrupted :: Source.ofBytes (log.drop 30)
    ∃ track, Opening.parse none source = .ok track ∧ Track.open none source = .ok track ∧
      track.header.Tells log ∧ track.StandsAt log 66 := by
  intro log source
  have hintact : source.Intact := by decide +kernel
  have hlog : source.bytes = log := by decide +kernel
  obtain ⟨hparse, hopens, htrack, -⟩ := open_decides none hintact
  rw [hlog] at hopens htrack
  have hplace : max 64 (commandsPlace log) = 66 := by decide +kernel
  have haccepted : 64 ≤ log.length ∧ HasMagic log ∧ HasSupportedVersion log ∧
      commandsPlace log ≤ log.length := by decide +kernel
  obtain ⟨track, hopen⟩ := hopens.mpr haccepted
  obtain ⟨htells, hstands, -⟩ := htrack track hopen
  rw [hopen] at hparse
  exact ⟨track, hparse, hopen, htells, hplace ▸ hstands⟩

end Track
end SoundLog
