import SoundLog.Text.Numeral

/-!
# Hexadecimal numerals tell their numbers

The number can be read back from its upper-case digits, whether zeros lead or not. A byte has two
digits, so it can be told even if more text follows.
-/

namespace SoundLog
namespace Numeral

def hexValue (digit : Char) : Nat :=
  if digit.isDigit then digit.toNat - '0'.toNat else digit.toNat - 'A'.toNat + 10

theorem ne_space_of_mem_toDigits (n : Nat) {c : Char} (h : c ∈ Nat.toDigits 16 n) :
    c.toUpper ≠ ' ' := by
  have hdigit : ∀ d < 16, (Nat.digitChar d).toUpper ≠ ' ' := by decide
  induction n using Nat.strongRecOn with
  | ind n ih =>
    by_cases hn : n < 16
    · rw [Nat.toDigits_of_lt_base hn] at h
      obtain rfl := List.mem_singleton.mp h
      exact hdigit n hn
    · rw [Nat.toDigits_of_base_le (by decide) (Nat.le_of_not_lt hn)] at h
      rcases List.mem_append.mp h with hfront | hlast
      · exact ih (n / 16) (by omega) hfront
      · obtain rfl := List.mem_singleton.mp hlast
        exact hdigit (n % 16) (Nat.mod_lt n (by decide))

theorem ne_space_of_mem_paddedUpperHex {width n : Nat} {c : Char}
    (h : c ∈ (paddedUpperHex width n).toList) : c ≠ ' ' := by
  rw [paddedUpperHex, padded, String.toList_ofList] at h
  rcases List.mem_append.mp h with hzero | hdigit
  · rw [List.eq_of_mem_replicate hzero]
    decide
  · obtain ⟨digit, hmem, rfl⟩ := List.mem_map.mp hdigit
    exact ne_space_of_mem_toDigits n hmem

theorem hexValue_digitChar : ∀ d < 16, hexValue (Nat.digitChar d).toUpper = d := by decide

/-- The number that upper-case hexadecimal digits stand for; zeros may lead. -/
def hexNumber (digits : List Char) : Nat :=
  digits.foldl (fun number digit => 16 * number + hexValue digit) 0

theorem hexNumber_replicate (count : Nat) (digits : List Char) :
    hexNumber (List.replicate count '0' ++ digits) = hexNumber digits := by
  induction count with
  | zero => rfl
  | succ count ih => exact ih

theorem hexNumber_toDigits (n : Nat) :
    hexNumber ((Nat.toDigits 16 n).map Char.toUpper) = n := by
  induction n using Nat.strongRecOn with
  | ind n ih =>
    by_cases hn : n < 16
    · rw [Nat.toDigits_of_lt_base hn]
      exact (Nat.zero_add _).trans (hexValue_digitChar n hn)
    · have hfront : hexNumber ((Nat.toDigits 16 (n / 16)).map Char.toUpper) = n / 16 :=
        ih (n / 16) (by omega)
      have hlast := hexValue_digitChar (n % 16) (Nat.mod_lt n (by decide))
      rw [hexNumber] at hfront
      rw [Nat.toDigits_of_base_le (by decide) (Nat.le_of_not_lt hn), List.map_append, hexNumber,
        List.foldl_append, hfront, List.map_singleton, List.foldl_cons, List.foldl_nil, hlast,
        Nat.div_add_mod]

theorem hexNumber_paddedUpperHex (width n : Nat) :
    hexNumber (paddedUpperHex width n).toList = n := by
  rw [paddedUpperHex, padded, String.toList_ofList, hexNumber_replicate, hexNumber_toDigits]

theorem exists_upperHex (b : UInt8) :
    ∃ high low : Char, (paddedUpperHex 2 b.toNat).toList = [high, low] ∧
      UInt8.ofNat (16 * hexValue high + hexValue low) = b := by
  have hlow : b.toNat % 16 < 16 := Nat.mod_lt _ (by decide)
  have hhigh : b.toNat / 16 < 16 := Nat.div_lt_of_lt_mul b.toNat_lt
  refine ⟨(Nat.digitChar (b.toNat / 16)).toUpper, (Nat.digitChar (b.toNat % 16)).toUpper, ?_, ?_⟩
  · rw [paddedUpperHex, padded, String.toList_ofList]
    by_cases hb : b.toNat < 16
    · rw [Nat.toDigits_of_lt_base hb, Nat.div_eq_of_lt hb, Nat.mod_eq_of_lt hb]
      rfl
    · rw [Nat.toDigits_of_base_le (by decide) (Nat.le_of_not_lt hb), Nat.toDigits_of_lt_base hhigh]
      rfl
  · rw [hexValue_digitChar _ hhigh, hexValue_digitChar _ hlow, Nat.div_add_mod, UInt8.ofNat_toNat]

theorem paddedUpperHex_inj {width m n : Nat} :
    paddedUpperHex width m = paddedUpperHex width n ↔ m = n := by
  constructor
  · intro h
    rw [← hexNumber_paddedUpperHex width m, h, hexNumber_paddedUpperHex]
  · exact congrArg (paddedUpperHex width)

theorem upperHex_append_inj {b c : UInt8} {text other : List Char} :
    (paddedUpperHex 2 b.toNat).toList ++ text = (paddedUpperHex 2 c.toNat).toList ++ other ↔
      b = c ∧ text = other := by
  have hlength : ∀ b : UInt8, (paddedUpperHex 2 b.toNat).toList.length = 2 := by
    intro b
    obtain ⟨high, low, hdigits, -⟩ := exists_upperHex b
    exact congrArg List.length hdigits
  constructor
  · intro h
    obtain ⟨hdigits, htext⟩ := List.append_inj h ((hlength b).trans (hlength c).symm)
    have hnumber := paddedUpperHex_inj.mp (String.toList_inj.mp hdigits)
    exact ⟨UInt8.toNat_inj.mp hnumber, htext⟩
  · rintro ⟨rfl, rfl⟩
    rfl

end Numeral
end SoundLog
