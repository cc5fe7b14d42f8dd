import SoundLog.Text.Numeral
import SoundLog.Ym2612.Port

/-!
# Kinds of commands

Every command kind has a tag, the byte that stands in front of the command in a log. The short waits
and the sample writes with a wait take 16 tags each; their lowest four bits are an argument.
`ofTag?` inverts `tag`.
-/

namespace SoundLog

/-- The four-bit argument in a tag. -/
abbrev Nibble := Fin 16

namespace Nibble

def low (b : UInt8) : Nibble := Fin.ofNat 16 b.toNat

def ofByte? (b : UInt8) : Option Nibble := if h : b.toNat < 16 then some ⟨b.toNat, h⟩ else none

def digit (n : Nibble) : String := Numeral.paddedUpperHex 1 n

end Nibble

namespace Command

inductive Kind
  /-- The end of the stream. Its tag is never stored. -/
  | eof
  | gameGearStereoWrite
  | psgWrite
  | ym2413Write
  | ym2612Write (port : Ym2612.Port)
  | waitLong
  | wait735
  | wait882
  | endOfSoundData
  | dataBlock
  | waitShort (nibble : Nibble)
  | ym2612PcmWriteWait (nibble : Nibble)
  | ym2612SeekPcm
  deriving DecidableEq

namespace Kind

def tag : Kind → UInt8
  | eof => 0x00
  | gameGearStereoWrite => 0x4F
  | psgWrite => 0x50
  | ym2413Write => 0x51
  | ym2612Write port => 0x52 + UInt8.ofNat port
  | waitLong => 0x61
  | wait735 => 0x62
  | wait882 => 0x63
  | endOfSoundData => 0x66
  | dataBlock => 0x67
  | waitShort nibble => 0x70 + UInt8.ofNat nibble
  | ym2612PcmWriteWait nibble => 0x80 + UInt8.ofNat nibble
  | ym2612SeekPcm => 0xE0

/-- The kind with a given tag; reserved and unknown tags have none. -/
def ofTag? (tag : UInt8) : Option Kind :=
  if tag = 0x00 then some eof
  else if tag = 0x4F then some gameGearStereoWrite
  else if tag = 0x50 then some psgWrite
  else if tag = 0x51 then some ym2413Write
  else if tag = 0x52 then some (ym2612Write 0)
  else if tag = 0x53 then some (ym2612Write 1)
  else if tag = 0x61 then some waitLong
  else if tag = 0x62 then some wait735
  else if tag = 0x63 then some wait882
  else if tag = 0x66 then some endOfSoundData
  else if tag = 0x67 then some dataBlock
  else if 0x70 ≤ tag ∧ tag ≤ 0x7F then some (waitShort (Nibble.low tag))
  else if 0x80 ≤ tag ∧ tag ≤ 0x8F then some (ym2612PcmWriteWait (Nibble.low tag))
  else if tag = 0xE0 then some ym2612SeekPcm
  else none

def name : Kind → String
  | eof => "Eof"
  | gameGearStereoWrite => "GameGearPsgStereoWrite"
  | psgWrite => "PsgWrite"
  | ym2413Write => "Ym2413Write"
  | ym2612Write port => "Ym2612Port" ++ Numeral.decimal port ++ "Write"
  | waitLong => "WaitLong"
  | wait735 => "Wait735"
  | wait882 => "Wait882"
  | endOfSoundData => "EndOfSoundData"
  | dataBlock => "DataBlock"
  | waitShort nibble => "WaitShort" ++ nibble.digit
  | ym2612PcmWriteWait nibble => "Ym2612PcmWriteWait" ++ nibble.digit
  | ym2612SeekPcm => "Ym2612SeekPcm"

def text (kind : Kind) : String :=
  kind.name ++ "(0x" ++ Numeral.paddedUpperHex 2 kind.tag.toNat ++ ")"

theorem ofTag?_tag (kind : Kind) : ofTag? kind.tag = some kind := by
  cases kind with
  | ym2612Write port => revert port; decide
  | waitShort nibble => revert nibble; decide
  | ym2612PcmWriteWait nibble => revert nibble; decide
  | _ => decide

end Kind
end Command
end SoundLog
