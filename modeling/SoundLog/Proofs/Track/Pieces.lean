import Mathlib
import SoundLog.Proofs.Command.Composition
import SoundLog.Proofs.Stream.Arrivals
import SoundLog.Proofs.Track.Calls
import SoundLog.Proofs.Track.Opening

/-!
# Logs that come in other pieces

All that can be seen of reading a log is told by what arrives. So it does not matter how a source
cuts the bytes of a log and where it interrupts the reads: the header, the place of the first
command and every later call are the same.
-/

namespace SoundLog

/-! ## Decoding -/

namespace Command

theorem byte_uniform : Uniform Decoder.byte := Reader.byte_uniform.adaptExcept _

theorem skip_uniform (n : Nat) : Uniform (Decoder.skip n) := (Reader.skip_uniform n).adaptExcept _

theorem uniform_compositional : Compositional (Uniform ·) where
  of_pure := Uniform.of_pure
  of_throw problem _ := Uniform.of_throw problem
  bind := Uniform.bind
  byte := byte_uniform
  pair := Reader.pair_uniform.adaptExcept _
  number width := (Reader.number_uniform width).adaptExcept _

theorem decodeTagged_uniform (tag : UInt8) : Uniform (decodeTagged tag) := by
  refine uniform_compositional.decodeTagged fun _ => ?_
  exact uniform_compositional.decodeDataBlock skip_uniform

theorem decode_uniform (wide : Bool) : Uniform (decode wide) := by
  intro left right h
  -- along the reserved opcodes on the left, which the right has too
  fun_induction decode wide left generalizing right with
  | case1 left problem after htag =>
    obtain ⟨after', hright, hafter⟩ := byte_uniform.exists_error h htag
    rw [decode_of_byte_error hright]
    exact .error problem hafter
  | case2 left tag afterTag htag hreserved =>
    obtain ⟨afterTag', hright, hafterTag⟩ := byte_uniform.exists_ok h htag
    rw [decode_of_tag hright hreserved]
    exact decodeTagged_uniform tag _ _ hafterTag
  | case3 left tag afterTag htag length hreserved problem after hskip =>
    obtain ⟨afterTag', hright, hafterTag⟩ := byte_uniform.exists_ok h htag
    obtain ⟨after', hright', hafter⟩ := (skip_uniform length).exists_error hafterTag hskip
    rw [decode_of_skip_error hright hreserved hright']
    exact .error problem hafter
  | case4 left tag afterTag htag length hreserved after hskip hsize ih =>
    obtain ⟨afterTag', hright, hafterTag⟩ := byte_uniform.exists_ok h htag
    obtain ⟨after', hright', hafter⟩ := (skip_uniform length).exists_ok hafterTag hskip
    rw [decode_of_skip hright hreserved hright']
    exact ih _ hafter

end Command

/-! ## Opening -/

namespace Header

/-- The readings have the same outcome, and the cursors are alike. -/
structure Reading.Alike (left right : Reading) : Prop where
  accepted_eq : left.accepted = right.accepted
  problem_eq : left.problem = right.problem
  cursor : left.cursor.Alike right.cursor

theorem readFields_alike (fields : List Field) {left right : Cursor} (h : left.Alike right) :
    (readFields fields left).Alike (readFields fields right) := by
  induction fields generalizing left right with
  | nil => exact ⟨rfl, rfl, h⟩
  | cons field fields ih =>
    have hfield : Uniform (Reader.bytes field.length) := Reader.collect_uniform _ _
    unfold readFields
    cases hleft : Reader.bytes field.length left with
    | error failure after =>
      obtain ⟨after', hright, hafter⟩ := hfield.exists_error h hleft
      rw [hright]
      exact ⟨rfl, rfl, hafter⟩
    | ok bytes after =>
      obtain ⟨after', hright, hafter⟩ := hfield.exists_ok h hleft
      rw [hright]
      cases hobjection : objection? field bytes with
      | some problem =>
        simp only [hobjection]
        exact ⟨rfl, rfl, hafter⟩
      | none =>
        have hrest := ih hafter
        simp only [hobjection]
        exact ⟨by rw [hrest.accepted_eq], hrest.problem_eq, hrest.cursor⟩

end Header

namespace Track

open Command

/-- The tracks differ in how the source brings the rest of the log. -/
structure Alike (left right : Track) : Prop where
  path_eq : left.path = right.path
  header_eq : left.header = right.header
  cursor : left.cursor.Alike right.cursor
  finished_eq : left.finished = right.finished

/-- Opening gives alike tracks or the same diagnostic. -/
inductive OpensAlike : Except Diagnostic Track → Except Diagnostic Track → Prop
  | ok {left right : Track} (h : left.Alike right) : OpensAlike (.ok left) (.ok right)
  | error (d : Diagnostic) : OpensAlike (.error d) (.error d)

theorem open_alike (path : Option String) {left right : Source}
    (h : left.arrivals = right.arrivals) :
    OpensAlike (Track.open path left) (Track.open path right) := by
  have hreading : (Header.read left).Alike (Header.read right) :=
    Header.readFields_alike _ ⟨h, rfl⟩
  have hgap : gap (Header.read left) = gap (Header.read right) := by
    unfold gap
    rw [hreading.accepted_eq, hreading.cursor.offset_eq]
  cases hproblem : (Header.read left).problem with
  | some problem =>
    rw [open_of_problem hproblem, open_of_problem (hreading.problem_eq ▸ hproblem),
      hreading.cursor.offset_eq]
    exact .error _
  | none =>
    have hproblem' := hreading.problem_eq ▸ hproblem
    have hskip := Reader.skip_uniform (gap (Header.read left))
    cases hleft : Reader.skip (gap (Header.read left)) (Header.read left).cursor with
    | ok value cursor =>
      obtain ⟨cursor', hright, hcursor⟩ := hskip.exists_ok hreading.cursor hleft
      rw [open_of_skip hproblem hleft, open_of_skip hproblem' (hgap ▸ hright),
        hreading.accepted_eq]
      exact .ok ⟨rfl, rfl, hcursor, rfl⟩
    | error failure cursor =>
      obtain ⟨cursor', hright, hcursor⟩ := hskip.exists_error hreading.cursor hleft
      rw [open_of_skip_error hproblem hleft, open_of_skip_error hproblem' (hgap ▸ hright),
        hreading.accepted_eq, hcursor.offset_eq]
      exact .error _

/-! ## Calling -/

theorem next_alike {left right : Track} (h : left.Alike right) :
    left.next.1 = right.next.1 ∧ left.next.2.Alike right.next.2 := by
  cases hfinished : left.finished with
  | true =>
    rw [next_of_finished hfinished, next_of_finished (h.finished_eq ▸ hfinished)]
    exact ⟨rfl, h⟩
  | false =>
    have hfinished' : right.finished = false := h.finished_eq ▸ hfinished
    have hdecode := decode_uniform left.header.hasWideReserved
    cases hleft : decode left.header.hasWideReserved left.cursor with
    | ok command after =>
      obtain ⟨after', hright, hafter⟩ := hdecode.exists_ok h.cursor hleft
      rw [next_of_ok hfinished hleft, next_of_ok hfinished' (h.header_eq ▸ hright)]
      exact ⟨rfl, h.path_eq, h.header_eq, hafter, rfl⟩
    | error problem after =>
      obtain ⟨after', hright, hafter⟩ := hdecode.exists_error h.cursor hleft
      by_cases hproblem : problem.endsCommands = true
      · rw [next_of_exhausted hfinished hleft hproblem,
          next_of_exhausted hfinished' (h.header_eq ▸ hright) hproblem]
        exact ⟨rfl, h.path_eq, h.header_eq, hafter, rfl⟩
      · rw [next_of_problem hfinished hleft hproblem,
          next_of_problem hfinished' (h.header_eq ▸ hright) hproblem]
        refine ⟨?_, h.path_eq, h.header_eq, hafter, h.finished_eq⟩
        rw [h.path_eq, hafter.offset_eq]

/-- What can be seen of a call: what it gives, and where the track then is and whether it has
finished. -/
def Step.seen (step : Step) : Outcome × Nat × Bool :=
  (step.outcome, step.after.offset, step.after.finished)

theorem seen_alike {left right : Track} (h : left.Alike right) :
    left.step.seen = right.step.seen := by
  obtain ⟨houtcome, hnext⟩ := next_alike h
  exact Prod.ext houtcome (Prod.ext hnext.cursor.offset_eq hnext.finished_eq)

theorem calls_alike {left right : Track} (h : left.Alike right) (n : Nat) :
    (left.calls n).map Step.seen = (right.calls n).map Step.seen := by
  induction n generalizing left right with
  | zero => rfl
  | succ n ih =>
    have hlater := ih (next_alike h).2
    rw [calls, calls, List.map_cons, List.map_cons, seen_alike h]
    exact congrArg _ hlater

structure Transcript where
  header : Header
  /-- The place of the first command. -/
  start : Nat
  calls : List (Outcome × Nat × Bool)

/-- What is seen of a log when it is opened and, if that succeeds, so many calls are made. -/
def transcript (path : Option String) (source : Source) (n : Nat) :
    Except Diagnostic Transcript :=
  match Track.open path source with
  | .ok track => .ok ⟨track.header, track.offset, (track.calls n).map Step.seen⟩
  | .error d => .error d

theorem transcript_of_arrivals (path : Option String) {left right : Source}
    (h : left.arrivals = right.arrivals) (n : Nat) :
    transcript path left n = transcript path right n := by
  have hopen := open_alike path h
  unfold transcript
  cases hleft : Track.open path left <;> cases hright : Track.open path right <;>
    rw [hleft, hright] at hopen <;> cases hopen
  · rfl
  · next htrack =>
    simp only [htrack.header_eq, calls_alike htrack n, offset, htrack.cursor.offset_eq]

/-- Two intact sources with the same bytes give the same header, or the same diagnostic, and the
same calls, however each of them cuts the bytes and interrupts the reads. -/
theorem transcript_of_pieces (path : Option String) {left right : Source} (hleft : left.Intact)
    (hright : right.Intact) (hbytes : left.bytes = right.bytes) (n : Nat) :
    transcript path left n = transcript path right n := by
  apply transcript_of_arrivals
  rw [hleft.arrivals_eq, hright.arrivals_eq, hbytes]

/-- A log with a data block that is cut off, in one piece and byte by byte with interruptions. -/
theorem transcript_byteByByte :
    let log : List UInt8 := ({ version := 0x150 } : Header).toBytes ++
      [0x31, 0x00, 0x62, 0x67, 0x66, 0x01, 0x04, 0x00, 0x00, 0x00, 0xAA, 0xBB]
    let whole : Source := Source.ofBytes log
    let pieces : Source := log.flatMap fun b => [.interrupted, .chunk b []]
    transcript none whole 3 = transcript none pieces 3 ∧
      transcript none pieces 3 = .ok
        { header := { eofOffset := 4, version := 0x150, dataOffset := 12 }
          start := 64
          calls := [(.ok .wait735, 67, false), (.ok .eof, 76, true), (.ok .eof, 76, true)] } := by
  intro log whole pieces
  have hwhole : whole.Intact := by decide +kernel
  have hpieces : pieces.Intact := by decide +kernel
  have hbytes : whole.bytes = pieces.bytes := by decide +kernel
  exact ⟨transcript_of_pieces none hwhole hpieces hbytes 3, by cbv⟩

end Track
end SoundLog
