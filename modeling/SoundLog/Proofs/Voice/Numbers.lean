import Mathlib.Data.List.DropRight
import SoundLog.Proofs.Voice.Text

/-!
# The numbers in the text of a voice

Every number of a voice ends a line of its text and can be read back from there. For a voice whose
operators are numbered by their places these are just its own numbers, none of them cut to a range.
-/

namespace SoundLog

/-! ## Reading numbers -/

/-- The number that ends a line: the digits that follow its last space. -/
def lineNumber? (line : List Char) : Option Nat :=
  Numeral.ofDecimal? (String.ofList ((line.rtakeWhile (· ≠ ' ')).takeWhile Char.isDigit))

/-- The numbers that end the lines of a text. -/
def shownNumbers (text : String) : List Nat := (text.toList.splitOn '\n').filterMap lineNumber?

theorem rtakeWhile_ne_space {front back : List Char} (h : ' ' ∉ back) :
    (front ++ ' ' :: back).rtakeWhile (· ≠ ' ') = back := by
  have hback : ∀ c ∈ back.reverse, decide (c ≠ ' ') = true := by
    intro c hc
    apply decide_eq_true
    rintro rfl
    exact h (List.mem_reverse.mp hc)
  rw [List.rtakeWhile, List.reverse_append, List.reverse_cons, List.append_assoc,
    List.singleton_append, List.takeWhile_append_of_pos hback,
    List.takeWhile_cons_of_neg (by decide), List.append_nil, List.reverse_reverse]

theorem lineNumber?_entry (front : String) (n : Nat) {closing : String}
    (hspace : ' ' ∉ closing.toList) (hdigits : closing.toList.takeWhile Char.isDigit = []) :
    lineNumber? (front ++ " " ++ Numeral.decimal n ++ closing).toList = some n := by
  have hnumeral : ' ' ∉ (Numeral.decimal n).toList := by
    intro hc
    cases Numeral.isDigit_of_mem_decimal hc
  have hline : (front ++ " " ++ Numeral.decimal n ++ closing).toList =
      front.toList ++ ' ' :: ((Numeral.decimal n).toList ++ closing.toList) := by
    simp
  have hback : ' ' ∉ (Numeral.decimal n).toList ++ closing.toList := by
    rw [List.mem_append]
    exact not_or.mpr ⟨hnumeral, hspace⟩
  have hfront : ∀ c ∈ (Numeral.decimal n).toList, c.isDigit = true :=
    fun c => Numeral.isDigit_of_mem_decimal
  rw [lineNumber?, hline, rtakeWhile_ne_space hback, List.takeWhile_append_of_pos hfront, hdigits,
    List.append_nil, String.ofList_toList, Numeral.ofDecimal?_decimal]

theorem shownNumbers_joinLines {lines : List String}
    (hlines : ∀ line ∈ lines, '\n' ∉ line.toList) :
    shownNumbers (joinLines lines) = lines.filterMap fun line => lineNumber? line.toList := by
  rw [shownNumbers, toList_joinLines]
  induction lines with
  | nil => decide
  | cons line lines ih =>
    obtain ⟨hline, hlines⟩ := List.forall_mem_cons.mp hlines
    rw [List.flatMap_cons, List.append_assoc, List.singleton_append,
      List.splitOn_append_cons_self, List.splitOn_eq_singleton hline, List.singleton_append,
      List.filterMap_cons, List.filterMap_cons, ih hlines]

/-! ## Numbers of voices -/

def OperatorVoice.numbers (operator : OperatorVoice) : List Nat :=
  [operator.index.toNat, operator.attackRate.toNat, operator.decay1Level.toNat,
    operator.decay1Rate.toNat, operator.decay2Rate.toNat, operator.releaseRate.toNat,
    operator.detune.toNat, operator.multiply.toNat, operator.volumeInverse.toNat]

def Voice.numbers (voice : Voice) : List Nat :=
  [voice.index.toNat, voice.algorithm.toNat, voice.feedback.toNat] ++
    (List.finRange 4).flatMap fun j => (voice.operators.get j).numbers

theorem filterMap_of_map {lines : List String} {shown : List (Option Nat)}
    (h : lines.map (fun line => lineNumber? line.toList) = shown) :
    lines.filterMap (fun line => lineNumber? line.toList) = shown.filterMap id := by
  rw [← h, List.filterMap_map, Function.id_comp]

theorem OperatorVoice.filterMap_lines {place : Nat} {operator : OperatorVoice}
    (hindex : operator.index.toNat = place) :
    (operator.lines place).filterMap (fun line => lineNumber? line.toList) = operator.numbers := by
  have hlines : (operator.lines place).map (fun line => lineNumber? line.toList) =
      [none, some place, none, some operator.attackRate.toNat, some operator.decay1Level.toNat,
        some operator.decay1Rate.toNat, some operator.decay2Rate.toNat,
        some operator.releaseRate.toNat, some operator.detune.toNat,
        some operator.multiply.toNat, some operator.volumeInverse.toNat] := by
    simp only [lines, List.map_cons, List.map_nil, List.cons.injEq, and_true]
    refine ⟨by decide, ?_, by decide, ?_, ?_, ?_, ?_, ?_, ?_, ?_, ?_⟩
    all_goals exact lineNumber?_entry _ _ (by decide) (by decide)
  rw [filterMap_of_map hlines, numbers, hindex]
  rfl

theorem Voice.shownNumbers_text {voice : Voice}
    (hindices : ∀ j : Fin 4, (voice.operators.get j).index.toNat = j) :
    shownNumbers voice.text = voice.numbers := by
  obtain ⟨front, hlines, hfront⟩ : ∃ front : List String,
      voice.lines = front ++
        (List.finRange 4).flatMap (fun j => (voice.operators.get j).lines j) ++ ["]", ""] ∧
      front.map (fun line => lineNumber? line.toList) =
        [none, some voice.index.toNat, some voice.algorithm.toNat, some voice.feedback.toNat] := by
    refine ⟨_, rfl, ?_⟩
    simp only [List.map_cons, List.map_nil, List.cons.injEq, and_true]
    refine ⟨by decide, ?_, ?_, ?_⟩
    all_goals exact lineNumber?_entry _ _ (by decide) (by decide)
  have hoperators :
      ((List.finRange 4).flatMap fun j => (voice.operators.get j).lines j).filterMap
        (fun line => lineNumber? line.toList) =
      (List.finRange 4).flatMap fun j => (voice.operators.get j).numbers := by
    rw [List.filterMap_flatMap]
    exact List.flatMap_congr fun j _ => OperatorVoice.filterMap_lines (hindices j)
  have hback : ["]", ""].filterMap (fun line => lineNumber? line.toList) = [] := by decide
  rw [text, shownNumbers_joinLines voice.newline_notMem_lines, hlines, List.filterMap_append,
    List.filterMap_append, filterMap_of_map hfront, hoperators, hback, List.append_nil, numbers]
  rfl

end SoundLog
