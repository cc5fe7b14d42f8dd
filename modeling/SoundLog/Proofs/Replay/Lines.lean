import SoundLog.Listing
import SoundLog.Proofs.Command.Text
import SoundLog.Proofs.Extraction.Playing
import SoundLog.Proofs.Text.Hexadecimal

/-!
# What the lines of a listing show

The line of a command shows the place, a space and the text of the command. The place and the
command can be read back from the line. What a write to the chip writes stands at fixed places in
its line, and the line of no other command reads like one.
-/

namespace SoundLog

/-! ## Texts of commands -/

namespace Command

/-- The first letters of the kind tell writes to the chip from all other commands. -/
theorem Kind.take_text (kind : Kind) :
    8 ≤ kind.text.toList.length ∧
      (kind.text.toList.take 8 = "Ym2612Po".toList ↔ ∃ port, kind = .ym2612Write port) := by
  cases kind with
  | ym2612Write port => revert port; decide +kernel
  | waitShort nibble => revert nibble; decide +kernel
  | ym2612PcmWriteWait nibble => revert nibble; decide +kernel
  | _ => decide +kernel

theorem take_text_iff (command : Command) :
    command.text.toList.take 8 = "Ym2612Po".toList ↔
      ∃ port register value, command = .ym2612Write port register value := by
  obtain ⟨hlength, hkind⟩ := command.kind.take_text
  rw [text, String.toList_append, List.take_append_of_le_length hlength, hkind]
  cases command with
  | ym2612Write port register value => exact iff_of_true ⟨port, rfl⟩ ⟨port, register, value, rfl⟩
  | _ => exact iff_of_false (by simp [kind]) (by simp)

end Command

/-! ## Lines -/

namespace Listing

/-- The write whose port and bytes stand at their places in the text of a command. -/
def writeAt (text : List Char) : Extraction.Write :=
  let digit (place : Nat) : Nat := Numeral.hexValue (text.getD place ' ')
  let byte (place : Nat) : UInt8 := UInt8.ofNat (16 * digit place + digit (place + 1))
  ⟨Fin.ofNat 2 (digit 10), byte 34, byte 45⟩

/-- The write to the chip that a line shows: what stands behind the first space is its text. -/
def shownWrite? (line : String) : Option Extraction.Write :=
  let text := (line.toList.dropWhile (· ≠ ' ')).drop 1
  let write := writeAt text
  if (Command.ym2612Write write.port write.register write.value).text.toList = text then some write
  else none

theorem toList_commandLine (start : Nat) (command : Command) :
    (commandLine start command).toList =
      '0' :: 'x' :: (Numeral.paddedUpperHex 8 start).toList ++ ' ' :: command.text.toList := by
  have heq : commandLine start command =
      "0x" ++ Numeral.paddedUpperHex 8 start ++ " " ++ command.text := rfl
  rw [heq]
  simp

theorem drop_commandLine (start : Nat) (command : Command) :
    ((commandLine start command).toList.dropWhile (· ≠ ' ')).drop 1 = command.text.toList := by
  have hplace : ∀ c ∈ '0' :: 'x' :: (Numeral.paddedUpperHex 8 start).toList,
      decide (c ≠ ' ') = true := by
    simp only [List.forall_mem_cons]
    refine ⟨by decide, by decide, ?_⟩
    intro c hc
    exact decide_eq_true (Numeral.ne_space_of_mem_paddedUpperHex hc)
  rw [toList_commandLine, List.dropWhile_append_of_pos hplace,
    List.dropWhile_cons_of_neg (by decide), List.drop_one, List.tail_cons]

def shownPlace (line : String) : Nat :=
  Numeral.hexNumber ((line.toList.drop 2).takeWhile (· ≠ ' '))

theorem shownPlace_commandLine (start : Nat) (command : Command) :
    shownPlace (commandLine start command) = start := by
  have hdigits : ∀ c ∈ (Numeral.paddedUpperHex 8 start).toList, decide (c ≠ ' ') = true := by
    intro c hc
    exact decide_eq_true (Numeral.ne_space_of_mem_paddedUpperHex hc)
  have hshown : ((commandLine start command).toList.drop 2).takeWhile (· ≠ ' ') =
      (Numeral.paddedUpperHex 8 start).toList := by
    rw [toList_commandLine, List.cons_append, List.cons_append, List.drop_succ_cons,
      List.drop_succ_cons, List.drop_zero, List.takeWhile_append_of_pos hdigits,
      List.takeWhile_cons_of_neg (by decide), List.append_nil]
  rw [shownPlace, hshown, Numeral.hexNumber_paddedUpperHex]

/-- The part of a line behind its first space. -/
def shownText (line : String) : String :=
  String.ofList ((line.toList.dropWhile (· ≠ ' ')).drop 1)

theorem shownText_commandLine (start : Nat) (command : Command) :
    shownText (commandLine start command) = command.text := by
  rw [shownText, drop_commandLine, String.ofList_toList]

theorem commandLine_inj {start place : Nat} {command other : Command} :
    commandLine start command = commandLine place other ↔ start = place ∧ command = other := by
  constructor
  · intro h
    have hplace := congrArg shownPlace h
    have htext := congrArg shownText h
    rw [shownPlace_commandLine, shownPlace_commandLine] at hplace
    rw [shownText_commandLine, shownText_commandLine] at htext
    exact ⟨hplace, Command.text_inj.mp htext⟩
  · rintro ⟨rfl, rfl⟩
    rfl

/-- The text of a command tells the command, alone and in the line of any place. -/
theorem shown_command_eq_iff (command other : Command) :
    (command.text = other.text ↔ command = other) ∧
      ∀ start place : Nat,
        (shownText (commandLine start command) = shownText (commandLine place other) ↔
          command = other) ∧
        (commandLine start command = commandLine place other ↔
          start = place ∧ command = other) := by
  refine ⟨Command.text_inj, ?_⟩
  intro start place
  refine ⟨?_, commandLine_inj⟩
  rw [shownText_commandLine, shownText_commandLine]
  exact Command.text_inj

theorem text_ym2612Write (port : Ym2612.Port) (register value : UInt8) :
    (Command.ym2612Write port register value).text.toList =
      (Command.Kind.ym2612Write port).text.toList ++ " register=0x".toList ++
        (Numeral.paddedUpperHex 2 register.toNat).toList ++ " value=0x".toList ++
        (Numeral.paddedUpperHex 2 value.toNat).toList := by
  have heq : (Command.ym2612Write port register value).text =
      (Command.Kind.ym2612Write port).text ++
        (" register=" ++ ("0x" ++ Numeral.paddedUpperHex 2 register.toNat) ++ " value=" ++
          ("0x" ++ Numeral.paddedUpperHex 2 value.toNat)) := rfl
  rw [heq]
  simp

theorem writeAt_text (port : Ym2612.Port) (register value : UInt8) :
    writeAt (Command.ym2612Write port register value).text.toList = ⟨port, register, value⟩ := by
  have hfront : ∀ port : Ym2612.Port,
      let front := (Command.Kind.ym2612Write port).text.toList ++ " register=0x".toList
      front.length = 34 ∧ Fin.ofNat 2 (Numeral.hexValue (front.getD 10 ' ')) = port := by
    decide +kernel
  have hmiddle : " value=0x".toList.length = 9 := by decide +kernel
  obtain ⟨high, low, hregister, hregister'⟩ := Numeral.exists_upperHex register
  obtain ⟨high', low', hvalue, hvalue'⟩ := Numeral.exists_upperHex value
  obtain ⟨hlength, hport⟩ := hfront port
  rw [text_ym2612Write, hregister, hvalue]
  generalize (Command.Kind.ym2612Write port).text.toList ++ " register=0x".toList = front at *
  generalize " value=0x".toList = middle at *
  have hplace : (front ++ [high, low] ++ middle ++ [high', low']).getD 10 ' ' =
      front.getD 10 ' ' := by
    simp [hlength, List.getD_eq_getElem?_getD, List.getElem?_append]
  have hhigh : (front ++ [high, low] ++ middle ++ [high', low']).getD 34 ' ' = high := by
    simp [hlength, List.getD_eq_getElem?_getD]
  have hlow : (front ++ [high, low] ++ middle ++ [high', low']).getD 35 ' ' = low := by
    simp [hlength, List.getD_eq_getElem?_getD, List.getElem?_append]
  have hhigh' : (front ++ [high, low] ++ middle ++ [high', low']).getD 45 ' ' = high' := by
    simp [hlength, hmiddle, List.getD_eq_getElem?_getD]
  have hlow' : (front ++ [high, low] ++ middle ++ [high', low']).getD 46 ' ' = low' := by
    simp [hlength, hmiddle, List.getD_eq_getElem?_getD]
  simp only [writeAt, hplace, hhigh, hlow, hhigh', hlow', hport, hregister', hvalue']

theorem shownWrite?_commandLine (start : Nat) (command : Command) :
    shownWrite? (commandLine start command) = Extraction.Write.ofOutcome? (.ok command) := by
  unfold shownWrite?
  simp only [drop_commandLine]
  rcases Extraction.write_cases command with ⟨port, register, value, rfl⟩ | hother
  · rw [writeAt_text]
    exact if_pos rfl
  · rw [Extraction.Write.ofOutcome?_of_other hother]
    apply if_neg
    intro htext
    generalize writeAt command.text.toList = write at htext
    have hstart := (Command.take_text_iff
      (.ym2612Write write.port write.register write.value)).mpr ⟨_, _, _, rfl⟩
    rw [htext] at hstart
    obtain ⟨port, register, value, hcommand⟩ := (Command.take_text_iff command).mp hstart
    exact hother port register value hcommand

end Listing
end SoundLog
