/-!
# Numerals

Decimal and hexadecimal numerals with a least number of digits, and a number of thousandths
written with three decimal places.
-/

namespace SoundLog
namespace Numeral

/-- Zeros in front of `digits` until there are at least `width` characters. -/
def padded (width : Nat) (digits : List Char) : String :=
  String.ofList (List.replicate (width - digits.length) '0' ++ digits)

/-- Decimal, without leading zeros. -/
def decimal (n : Nat) : String := n.repr

theorem decimal_inj {m n : Nat} : decimal m = decimal n ↔ m = n := by
  constructor
  · intro h
    have hdigits : Nat.toDigits 10 m = Nat.toDigits 10 n := by
      rw [← Nat.toList_repr, ← Nat.toList_repr]
      exact congrArg String.toList h
    rw [← Nat.ofDigitChars_ten_toDigits (n := m), hdigits, Nat.ofDigitChars_ten_toDigits]
  · exact congrArg decimal

theorem isDigit_of_mem_decimal {n : Nat} {c : Char} (h : c ∈ (decimal n).toList) :
    c.isDigit = true := by
  rw [decimal, Nat.toList_repr] at h
  exact Nat.isDigit_of_mem_toDigits (by decide) (by decide) h

/-- The number that decimal digits stand for; zeros may lead. -/
def ofDecimal? (text : String) : Option Nat :=
  let digits := text.toList
  if digits = [] ∨ digits.any (!·.isDigit) then none
  else some (digits.foldl (fun n digit => 10 * n + (digit.toNat - '0'.toNat)) 0)

theorem ofDecimal?_decimal (n : Nat) : ofDecimal? (decimal n) = some n := by
  have hdigits : (decimal n).toList = Nat.toDigits 10 n := Nat.toList_repr
  have hany : (decimal n).toList.any (!·.isDigit) = false := by
    rw [List.any_eq_false]
    intro c hc
    rw [isDigit_of_mem_decimal hc]
    decide
  have hread : ¬((decimal n).toList = [] ∨ (decimal n).toList.any (!·.isDigit) = true) := by
    rw [hany, hdigits]
    exact not_or.mpr ⟨Nat.toDigits_ne_nil, Bool.false_ne_true⟩
  rw [ofDecimal?, if_neg hread, hdigits]
  exact congrArg some Nat.ofDigitChars_ten_toDigits

def paddedDecimal (width n : Nat) : String := padded width (Nat.toDigits 10 n)

/-- Hexadecimal in lower-case digits. -/
def hex (n : Nat) : String := padded 0 (Nat.toDigits 16 n)

def paddedHex (width n : Nat) : String := padded width (Nat.toDigits 16 n)

def paddedUpperHex (width n : Nat) : String :=
  padded width ((Nat.toDigits 16 n).map Char.toUpper)

def paddedBinary (width n : Nat) : String := padded width (Nat.toDigits 2 n)

def thousandths (n : Nat) : String := decimal (n / 1000) ++ "." ++ paddedDecimal 3 (n % 1000)

/-- The quotient `num / den` rounded to the nearest integer; a half goes up. -/
def roundedQuotient (num den : Nat) : Nat := (2 * num + den) / (2 * den)

end Numeral
end SoundLog
