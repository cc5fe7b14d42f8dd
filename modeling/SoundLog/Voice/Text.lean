import SoundLog.Voice.Basic

/-!
# The text of a voice

Voices are written as nested brackets, one value a line. An operator is written with its place in
the voice.
-/

namespace SoundLog

def joinLines (lines : List String) : String := String.join (lines.map (· ++ "\n"))

/-- A name with a number in brackets, of which `closing` end here. -/
private def entryLine (indent name : String) (value : Nat) (closing : String) : String :=
  indent ++ "[" ++ name ++ " " ++ Numeral.decimal value ++ closing

private theorem entryLine_inj {indent name closing : String} {m n : Nat} :
    entryLine indent name m closing = entryLine indent name n closing ↔ m = n := by
  rw [entryLine, entryLine, String.append_left_inj, String.append_right_inj, Numeral.decimal_inj]

private theorem notMem_entryLine {c : Char} (hdigit : c.isDigit = false)
    {indent name closing : String} (hindent : c ∉ (indent ++ "[").toList)
    (hname : c ∉ (name ++ " ").toList) (hclosing : c ∉ closing.toList) (value : Nat) :
    c ∉ (entryLine indent name value closing).toList := by
  have hvalue : c ∉ (Numeral.decimal value).toList := by
    intro hc
    rw [Numeral.isDigit_of_mem_decimal hc] at hdigit
    cases hdigit
  simp only [String.toList_append, List.mem_append, not_or] at hindent hname
  simp only [entryLine, String.toList_append, List.mem_append, not_or]
  exact ⟨⟨⟨⟨hindent, hname.1⟩, hname.2⟩, hvalue⟩, hclosing⟩

def OperatorVoice.lines (place : Nat) (operator : OperatorVoice) : List String :=
  [ "  [op ",
    entryLine "    " "index" place "]",
    "    [envelope ",
    entryLine "      " "attack-rate" operator.attackRate.toNat "]",
    entryLine "      " "decay-1-level" operator.decay1Level.toNat "]",
    entryLine "      " "decay-1-rate" operator.decay1Rate.toNat "]",
    entryLine "      " "decay-2-rate" operator.decay2Rate.toNat "]",
    entryLine "      " "release-rate" operator.releaseRate.toNat "]]",
    entryLine "    " "detune" operator.detune.toNat "]",
    entryLine "    " "multiply" operator.multiply.toNat "]",
    entryLine "    " "volume-inverse" operator.volumeInverse.toNat "]]" ]

namespace OperatorVoice

variable (place : Nat) (operator : OperatorVoice)

theorem lines_inj {other : OperatorVoice} (hindex : operator.index = other.index) :
    operator.lines place = other.lines place ↔ operator = other := by
  constructor
  · intro h
    simp only [lines, List.cons.injEq, entryLine_inj, UInt8.toNat_inj, true_and, and_true] at h
    obtain ⟨hattack, hlevel, hdecay1, hdecay2, hrelease, hdetune, hmultiply, hvolume⟩ := h
    exact (OperatorVoice.mk.injEq ..).mpr
      ⟨hindex, hvolume, hattack, hdecay1, hlevel, hdecay2, hrelease, hmultiply, hdetune⟩
  · exact congrArg (lines place)

theorem newline_notMem_lines : ∀ line ∈ operator.lines place, '\n' ∉ line.toList := by
  simp only [lines, List.forall_mem_cons]
  refine ⟨by decide, ?_, by decide, ?_, ?_, ?_, ?_, ?_, ?_, ?_, ?_, by simp⟩
  all_goals exact notMem_entryLine (by decide) (by decide) (by decide) (by decide) _

end OperatorVoice

namespace Voice

def lines (voice : Voice) : List String :=
  [ "[channel ",
    entryLine "  " "index" voice.index.toNat "]",
    entryLine "  " "algorithm" voice.algorithm.toNat "]",
    entryLine "  " "feedback" voice.feedback.toNat "]" ]
  ++ (List.finRange 4).flatMap (fun j => (voice.operators.get j).lines j)
  ++ ["]", ""]

private theorem eq_of_flatMap_eq {α β : Type} {xs : List α} {f g : α → List β}
    (hlength : ∀ x, (f x).length = (g x).length) (h : xs.flatMap f = xs.flatMap g) :
    ∀ x ∈ xs, f x = g x := by
  induction xs with
  | nil => exact List.forall_mem_nil _
  | cons x xs ih =>
    obtain ⟨hx, hxs⟩ := List.append_inj h (hlength x)
    exact List.forall_mem_cons.mpr ⟨hx, ih hxs⟩

theorem lines_inj {voice other : Voice}
    (hindices : ∀ j, (voice.operators.get j).index = (other.operators.get j).index) :
    voice.lines = other.lines ↔ voice = other := by
  constructor
  · intro h
    obtain ⟨hfront, hoperators⟩ := List.append_inj (List.append_cancel_right h) rfl
    simp only [List.cons.injEq, entryLine_inj, UInt8.toNat_inj, true_and, and_true] at hfront
    obtain ⟨hindex, halgorithm, hfeedback⟩ := hfront
    have hlength : ∀ j, ((voice.operators.get j).lines j).length =
        ((other.operators.get j).lines j).length := fun _ => rfl
    have hoperator : ∀ j, voice.operators.get j = other.operators.get j := by
      intro j
      have hlines := eq_of_flatMap_eq hlength hoperators j (List.mem_finRange j)
      exact (OperatorVoice.lines_inj j _ (hindices j)).mp hlines
    exact (Voice.mk.injEq ..).mpr ⟨hindex, halgorithm, hfeedback,
      Vector.ext fun j hj => hoperator ⟨j, hj⟩⟩
  · exact congrArg lines

theorem newline_notMem_lines (voice : Voice) : ∀ line ∈ voice.lines, '\n' ∉ line.toList := by
  simp only [lines, List.forall_mem_append, List.forall_mem_cons]
  refine ⟨⟨⟨by decide, ?_, ?_, ?_, by simp⟩, ?_⟩, by decide, by decide, by simp⟩
  · exact notMem_entryLine (by decide) (by decide) (by decide) (by decide) _
  · exact notMem_entryLine (by decide) (by decide) (by decide) (by decide) _
  · exact notMem_entryLine (by decide) (by decide) (by decide) (by decide) _
  · intro line hline
    obtain ⟨j, -, hline⟩ := List.mem_flatMap.mp hline
    exact OperatorVoice.newline_notMem_lines _ _ line hline

def text (voice : Voice) : String := joinLines voice.lines

end Voice
end SoundLog
