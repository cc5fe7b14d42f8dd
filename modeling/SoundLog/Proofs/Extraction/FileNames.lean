import SoundLog.Extraction
import SoundLog.Proofs.Volume.Writing

/-!
# Names of voice files

A numeral tells its number, whatever zeros are put in front of it. So the name of a voice file tells
the channel and the number of its dump, however many digits the number needs, and two dumps that
share a name share both.
-/

namespace SoundLog

namespace Numeral

theorem ofDigitChars_paddedDecimal (width n : Nat) :
    Nat.ofDigitChars 10 (paddedDecimal width n).toList 0 = n := by
  rw [paddedDecimal, padded, String.toList_ofList, Nat.ofDigitChars_append,
    Nat.ofDigitChars_replicate_zero, Nat.mul_zero, Nat.ofDigitChars_ten_toDigits]

theorem paddedDecimal_inj {width m n : Nat}
    (h : (paddedDecimal width m).toList = (paddedDecimal width n).toList) : m = n := by
  rw [← ofDigitChars_paddedDecimal width m, h, ofDigitChars_paddedDecimal]

theorem isDigit_of_mem_paddedDecimal {width n : Nat} {c : Char}
    (h : c ∈ (paddedDecimal width n).toList) : c.isDigit = true := by
  rw [paddedDecimal, padded, String.toList_ofList] at h
  rcases List.mem_append.mp h with hzero | hdigit
  · rw [List.eq_of_mem_replicate hzero]
    rfl
  · exact Nat.isDigit_of_mem_toDigits (by decide) (by decide) hdigit

end Numeral

namespace Extraction

theorem toList_fileName (dump : Dump) :
    (fileName dump).toList = ['c', 'h'] ++ ((Numeral.paddedDecimal 2 dump.channel).toList ++
      '-' :: ((Numeral.paddedDecimal 4 dump.sequence).toList ++ ['.', 't', 'x', 't'])) := by
  simp [fileName, stem]

theorem length_channel (i : Fin 6) : (Numeral.paddedDecimal 2 i).toList.length = 2 := by
  revert i
  decide

theorem fileName_inj {dump other : Dump} (h : fileName dump = fileName other) :
    dump.channel = other.channel ∧ dump.sequence = other.sequence := by
  have hlist := congrArg String.toList h
  rw [toList_fileName, toList_fileName] at hlist
  have hlength := (length_channel dump.channel).trans (length_channel other.channel).symm
  obtain ⟨hchannel, hrest⟩ := List.append_inj (List.append_cancel_left hlist) hlength
  have hsequence := List.append_cancel_right (List.cons.inj hrest).2
  exact ⟨Fin.ext (Numeral.paddedDecimal_inj hchannel), Numeral.paddedDecimal_inj hsequence⟩

theorem isFileName_fileName (dump : Dump) : Path.IsFileName (fileName dump) := by
  have hne : ∀ name : String, name.toList.head? ≠ some 'c' → fileName dump ≠ name := by
    rintro name hhead rfl
    rw [toList_fileName] at hhead
    exact hhead rfl
  refine ⟨?_, hne _ (by decide), hne _ (by decide), hne _ (by decide)⟩
  intro hslash
  have hdigit : ¬ '/'.isDigit = true := by decide
  rw [toList_fileName] at hslash
  rcases List.mem_append.mp hslash with hstart | hslash
  · exact absurd hstart (by decide)
  rcases List.mem_append.mp hslash with hchannel | hslash
  · exact hdigit (Numeral.isDigit_of_mem_paddedDecimal hchannel)
  rcases List.mem_cons.mp hslash with hdash | hslash
  · exact absurd hdash (by decide)
  rcases List.mem_append.mp hslash with hsequence | hending
  · exact hdigit (Numeral.isDigit_of_mem_paddedDecimal hsequence)
  · exact absurd hending (by decide)

theorem apart_filePath {output : String} {dump other : Dump} (h : fileName dump ≠ fileName other) :
    Volume.Apart (filePath output dump) (filePath output other) :=
  Volume.apart_join (isFileName_fileName dump) (isFileName_fileName other) h

end Extraction
end SoundLog
