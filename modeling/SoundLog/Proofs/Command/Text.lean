import SoundLog.Command.Basic
import SoundLog.Proofs.Text.Hexadecimal

/-!
# The text of a command tells the command

The name of a kind ends where the first bracket opens, and the tag behind the bracket tells the
kind. The kind tells what is printed behind it: numbers of one digit after another, each of a fixed
length unless it is the last.
-/

namespace SoundLog
namespace Command

/-! ## Kinds -/

theorem Kind.bracket_notMem_name (kind : Kind) : '(' ∉ kind.name.toList := by
  cases kind with
  | ym2612Write port => revert port; decide +kernel
  | waitShort nibble => revert nibble; decide +kernel
  | ym2612PcmWriteWait nibble => revert nibble; decide +kernel
  | _ => decide +kernel

/-- What stands in front of the first bracket is the name. -/
theorem Kind.dropWhile_name (kind : Kind) (rest : List Char) :
    (kind.name.toList ++ '(' :: rest).dropWhile (· ≠ '(') = '(' :: rest := by
  have hname : ∀ c ∈ kind.name.toList, decide (c ≠ '(') = true := by
    intro c hc
    apply decide_eq_true
    rintro rfl
    exact kind.bracket_notMem_name hc
  rw [List.dropWhile_append_of_pos hname, List.dropWhile_cons_of_neg (by decide)]

theorem Kind.tag_inj {kind other : Kind} : kind.tag = other.tag ↔ kind = other := by
  constructor
  · intro h
    have hkind := kind.ofTag?_tag
    rw [h, other.ofTag?_tag] at hkind
    exact (Option.some.inj hkind).symm
  · exact congrArg Kind.tag

theorem Kind.toList_text (kind : Kind) :
    kind.text.toList = kind.name.toList ++
      '(' :: '0' :: 'x' :: ((Numeral.paddedUpperHex 2 kind.tag.toNat).toList ++ [')']) := by
  simp [Kind.text]

/-- The text of a kind can be told from what follows it. -/
theorem Kind.text_append_inj {kind other : Kind} {arguments others : String} :
    kind.text ++ arguments = other.text ++ others ↔ kind = other ∧ arguments = others := by
  constructor
  · intro h
    replace h := congrArg (fun text => text.toList.dropWhile (· ≠ '(')) h
    simp only [String.toList_append, Kind.toList_text, List.append_assoc, List.cons_append,
      List.nil_append, Kind.dropWhile_name, List.cons.injEq, true_and] at h
    obtain ⟨htag, hrest⟩ := Numeral.upperHex_append_inj.mp h
    have harguments := List.tail_eq_of_cons_eq hrest
    exact ⟨Kind.tag_inj.mp htag, String.toList_inj.mp harguments⟩
  · rintro ⟨rfl, rfl⟩
    rfl

/-! ## Arguments -/

theorem byte_inj {b c : UInt8}
    (h : "0x" ++ Numeral.paddedUpperHex 2 b.toNat = "0x" ++ Numeral.paddedUpperHex 2 c.toNat) :
    b = c := by
  rw [String.append_right_inj, Numeral.paddedUpperHex_inj, UInt8.toNat_inj] at h
  exact h

theorem byte_append_inj {front middle text other : String} {b c : UInt8}
    (h : front ++ ("0x" ++ Numeral.paddedUpperHex 2 b.toNat) ++ middle ++ text =
      front ++ ("0x" ++ Numeral.paddedUpperHex 2 c.toNat) ++ middle ++ other) :
    b = c ∧ text = other := by
  simp only [String.append_assoc, String.append_right_inj] at h
  replace h := congrArg String.toList h
  simp only [String.toList_append] at h
  obtain ⟨hbyte, hrest⟩ := Numeral.upperHex_append_inj.mp h
  have htext := List.append_cancel_left hrest
  exact ⟨hbyte, String.toList_inj.mp htext⟩

theorem argumentText_inj {command other : Command} (hkind : command.kind = other.kind)
    (h : command.argumentText = other.argumentText) : command = other := by
  cases command with
  | eof | wait735 | wait882 | endOfSoundData | waitShort | ym2612PcmWriteWait =>
    -- the kind has all that the command carries
    cases other <;> cases hkind
    rfl
  | gameGearStereoWrite | psgWrite =>
    cases other <;> cases hkind
    have hvalue := byte_inj ((String.append_right_inj _).mp h)
    rw [hvalue]
  | ym2413Write | ym2612Write =>
    cases other <;> cases hkind
    obtain ⟨hregister, hvalue⟩ := byte_append_inj h
    rw [hregister, byte_inj hvalue]
  | ym2612SeekPcm =>
    cases other <;> cases hkind
    have hoffset := Numeral.paddedUpperHex_inj.mp ((String.append_right_inj _).mp h)
    rw [UInt32.toNat_inj.mp hoffset]
  | waitLong =>
    cases other <;> cases hkind
    have hsamples := Numeral.decimal_inj.mp ((String.append_right_inj _).mp h)
    rw [UInt16.toNat_inj.mp hsamples]
  | dataBlock =>
    cases other <;> cases hkind
    obtain ⟨htype, hsize⟩ := byte_append_inj h
    rw [htype, UInt32.toNat_inj.mp (Numeral.decimal_inj.mp hsize)]

theorem text_inj {command other : Command} : command.text = other.text ↔ command = other := by
  constructor
  · intro h
    obtain ⟨hkind, harguments⟩ := Kind.text_append_inj.mp h
    exact argumentText_inj hkind harguments
  · exact congrArg text

/-- Both wait five samples, and the kinds keep them apart. -/
example :
    (waitShort 4).text = "WaitShort4(0x74) samples=5" ∧
      (waitLong 5).text = "WaitLong(0x61) samples=5" := by
  decide +kernel

end Command
end SoundLog
