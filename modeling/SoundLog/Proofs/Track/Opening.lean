import SoundLog.Track

/-!
# Opening a log

A log is opened by reading its header and then skipping the gap between the header and the place
where the commands start. The reading, or else the skip, decides what comes of it.
-/

namespace SoundLog
namespace Track

variable {path : Option String} {source : Source} {cursor : Cursor}

def gap (reading : Header.Reading) : Nat :=
  (Header.ofBytes reading.accepted).dataOffset - reading.cursor.offset

theorem open_of_problem {problem : Problem} (h : (Header.read source).problem = some problem) :
    Track.open path source = .error ⟨(Header.read source).cursor.offset, path, problem⟩ := by
  simp only [Track.open, h]

theorem open_of_skip (h : (Header.read source).problem = none)
    (hskip : Reader.skip (gap (Header.read source)) (Header.read source).cursor = .ok () cursor) :
    Track.open path source =
      .ok { path, header := Header.ofBytes (Header.read source).accepted, cursor } := by
  unfold gap at hskip
  simp only [Track.open, h, hskip]

theorem open_of_skip_error {failure : Failure} (h : (Header.read source).problem = none)
    (hskip : Reader.skip (gap (Header.read source)) (Header.read source).cursor =
      .error failure cursor) :
    Track.open path source = .error ⟨cursor.offset, path,
      .shortGap (Header.ofBytes (Header.read source).accepted).dataOffset failure⟩ := by
  unfold gap at hskip
  simp only [Track.open, h, hskip]

theorem exists_of_open {track : Track} (h : Track.open path source = .ok track) :
    (Header.read source).problem = none ∧ ∃ cursor,
      Reader.skip (gap (Header.read source)) (Header.read source).cursor = .ok () cursor ∧
        track = { path, header := Header.ofBytes (Header.read source).accepted, cursor } := by
  cases hproblem : (Header.read source).problem with
  | some problem =>
    rw [open_of_problem hproblem] at h
    cases h
  | none =>
    refine ⟨rfl, ?_⟩
    cases hskip : Reader.skip (gap (Header.read source)) (Header.read source).cursor with
    | ok value cursor =>
      rw [open_of_skip hproblem hskip] at h
      exact ⟨cursor, rfl, (Except.ok.inj h).symm⟩
    | error failure cursor =>
      rw [open_of_skip_error hproblem hskip] at h
      cases h

end Track
end SoundLog
