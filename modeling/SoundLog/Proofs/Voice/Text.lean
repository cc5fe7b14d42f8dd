import SoundLog.Proofs.Ym2612.History
import SoundLog.Proofs.Ym2612.VoiceWrites
import SoundLog.Voice.Text

/-!
# The text of a voice tells the voice

A text tells the lines it is made of, and the lines of a voice tell all its numbers but those of the
operators, in place of which the places are printed. On the chip these are the same, so there the
text tells the whole voice.
-/

namespace SoundLog

/-! ## Lines -/

theorem toList_joinLines (lines : List String) :
    (joinLines lines).toList = lines.flatMap fun line => line.toList ++ ['\n'] := by
  simp [joinLines, String.toList_join, List.flatMap_map]

theorem takeWhile_line {line : String} (h : '\n' ∉ line.toList) (rest : List Char) :
    (line.toList ++ ['\n'] ++ rest).takeWhile (· ≠ '\n') = line.toList := by
  have hline : ∀ c ∈ line.toList, decide (c ≠ '\n') = true := by
    intro c hc
    apply decide_eq_true
    rintro rfl
    exact h hc
  rw [List.append_assoc, List.takeWhile_append_of_pos hline, List.singleton_append,
    List.takeWhile_cons_of_neg (by decide), List.append_nil]

theorem joinLines_inj {lines others : List String} (hlines : ∀ line ∈ lines, '\n' ∉ line.toList)
    (hothers : ∀ line ∈ others, '\n' ∉ line.toList) :
    joinLines lines = joinLines others ↔ lines = others := by
  constructor
  · intro h
    replace h := congrArg String.toList h
    rw [toList_joinLines, toList_joinLines] at h
    induction lines generalizing others with
    | nil =>
      cases others with
      | nil => rfl
      | cons other others => simp at h
    | cons line lines ih =>
      cases others with
      | nil => simp at h
      | cons other others =>
        obtain ⟨hline, hlines⟩ := List.forall_mem_cons.mp hlines
        obtain ⟨hother, hothers⟩ := List.forall_mem_cons.mp hothers
        rw [List.flatMap_cons, List.flatMap_cons] at h
        have hfirst := congrArg (List.takeWhile (· ≠ '\n')) h
        rw [takeWhile_line hline, takeWhile_line hother] at hfirst
        rw [hfirst] at h
        rw [String.toList_inj.mp hfirst, ih hlines hothers (List.append_cancel_left h)]
  · exact congrArg joinLines

/-! ## Voices -/

theorem Voice.text_inj {voice other : Voice}
    (hindices : ∀ j, (voice.operators.get j).index = (other.operators.get j).index) :
    voice.text = other.text ↔ voice = other :=
  (joinLines_inj voice.newline_notMem_lines other.newline_notMem_lines).trans (lines_inj hindices)

/-- The text of a voice does not show the numbers of its operators. -/
example :
    let voice : Voice := { operators := Vector.replicate 4 { index := 1 } }
    voice ≠ {} ∧ voice.text = Voice.text {} :=
  ⟨by decide, rfl⟩

namespace Ym2612

/-- The texts of two voices are the same just if the voices are, whatever histories and channels
they come from. -/
theorem text_run_eq_iff (history other : List Action) (c d : Fin 6) :
    ((run history).channels.get c).voice.text = ((run other).channels.get d).voice.text ↔
      ((run history).channels.get c).voice = ((run other).channels.get d).voice := by
  apply Voice.text_inj
  intro j
  rw [Channel.get_voice_operators, Channel.get_voice_operators]
  exact ((numbered_run history).operator c j).trans ((numbered_run other).operator d j).symm

end Ym2612
end SoundLog
