import SoundLog.Voice.Text

/-!
# DX7 voices

The DX7 has 32 algorithms for six operators where the YM2612 has 8 for four. Each of the 8 has a
nearest one among the 32. Only the algorithm is carried over.
-/

namespace SoundLog
namespace Dx7

structure Algorithm where
  number : Nat
  one_le : 1 ≤ number := by decide
  le_max : number ≤ 32 := by decide
  deriving DecidableEq

namespace Algorithm

def ofByte? (b : UInt8) : Option Algorithm :=
  if h : 1 ≤ b.toNat ∧ b.toNat ≤ 32 then some ⟨b.toNat, h.1, h.2⟩ else none

/-- The nearest algorithm for each of the eight. -/
def nearest : Vector Algorithm 8 :=
  #v[{ number := 1 }, { number := 14 }, { number := 8 }, { number := 7 }, { number := 29 },
    { number := 22 }, { number := 31 }, { number := 32 }]

end Algorithm

structure Voice where
  name : String
  algorithm : Algorithm
  deriving DecidableEq

namespace Voice

/-- The DX7 voice for a voice; only the lowest three bits of its algorithm count. -/
def ofVoice (name : String) (voice : SoundLog.Voice) : Voice where
  name := name
  algorithm := Algorithm.nearest[Fin.ofNat 8 voice.algorithm.toNat]

def lines (voice : Voice) : List String :=
  [ "[dx7-voice ",
    "  [name " ++ voice.name ++ "]",
    "  [algorithm " ++ Numeral.decimal voice.algorithm.number ++ "]]" ]

def text (voice : Voice) : String := joinLines voice.lines

end Voice
end Dx7
end SoundLog
