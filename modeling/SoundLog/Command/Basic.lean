import SoundLog.Bytes.LittleEndian
import SoundLog.Command.Kind

/-!
# Commands

The commands of a log, with what each of them carries, how long it waits, how it is printed and how
it is stored.
-/

namespace SoundLog

inductive Command
  /-- The end of the stream or of the sound data has been reached. -/
  | eof
  | gameGearStereoWrite (value : UInt8)
  | psgWrite (value : UInt8)
  | ym2413Write (register value : UInt8)
  | ym2612Write (port : Ym2612.Port) (register value : UInt8)
  /-- Moves to a place in the sample data. -/
  | ym2612SeekPcm (offset : UInt32)
  | waitLong (samples : UInt16)
  | wait735
  | wait882
  /-- The last command. -/
  | endOfSoundData
  /-- A block of data; its contents are not kept. -/
  | dataBlock (type : UInt8) (size : UInt32)
  /-- Waits one sample more than its argument says. -/
  | waitShort (nibble : Nibble)
  /-- Writes a sample and waits as many samples as its argument says. -/
  | ym2612PcmWriteWait (nibble : Nibble)
  deriving DecidableEq

namespace Command

def kind : Command → Kind
  | eof => .eof
  | gameGearStereoWrite _ => .gameGearStereoWrite
  | psgWrite _ => .psgWrite
  | ym2413Write .. => .ym2413Write
  | ym2612Write port .. => .ym2612Write port
  | ym2612SeekPcm _ => .ym2612SeekPcm
  | waitLong _ => .waitLong
  | wait735 => .wait735
  | wait882 => .wait882
  | endOfSoundData => .endOfSoundData
  | dataBlock .. => .dataBlock
  | waitShort nibble => .waitShort nibble
  | ym2612PcmWriteWait nibble => .ym2612PcmWriteWait nibble

/-- The samples waited for, if the command takes time. -/
def samples? : Command → Option Nat
  | waitLong n => some n.toNat
  | wait735 => some 735
  | wait882 => some 882
  | waitShort nibble => some (nibble + 1)
  | ym2612PcmWriteWait nibble => some nibble
  | _ => none

private def byteText (b : UInt8) : String := "0x" ++ Numeral.paddedUpperHex 2 b.toNat

private def writeText (register value : UInt8) : String :=
  " register=" ++ byteText register ++ " value=" ++ byteText value

def argumentText : Command → String
  | gameGearStereoWrite value => " value=" ++ byteText value
  | psgWrite value => " value=" ++ byteText value
  | ym2413Write register value => writeText register value
  | ym2612Write _ register value => writeText register value
  | ym2612SeekPcm offset => " offset=0x" ++ Numeral.paddedUpperHex 8 offset.toNat
  | dataBlock type size => " type=" ++ byteText type ++ " size=" ++ Numeral.decimal size.toNat
  | command =>
    match command.samples? with
    | some n => " samples=" ++ Numeral.decimal n
    | none => ""

def text (command : Command) : String := command.kind.text ++ command.argumentText

/-- The byte that follows the tag of a data block. -/
def dataBlockMark : UInt8 := 0x66

/-- The bytes stored after the tag; `contents` are those of a data block. -/
def payload (contents : List UInt8) : Command → List UInt8
  | gameGearStereoWrite value => [value]
  | psgWrite value => [value]
  | ym2413Write register value => [register, value]
  | ym2612Write _ register value => [register, value]
  | ym2612SeekPcm offset => LittleEndian.ofNat 4 offset.toNat
  | waitLong n => LittleEndian.ofNat 2 n.toNat
  | dataBlock type size => dataBlockMark :: type :: (LittleEndian.ofNat 4 size.toNat ++ contents)
  | _ => []

/-- The stored form of a command, which the end of the stream has not. -/
def encode (contents : List UInt8) (command : Command) : List UInt8 :=
  match command with
  | eof => []
  | _ => command.kind.tag :: command.payload contents

end Command
end SoundLog
