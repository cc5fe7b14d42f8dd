import SoundLog.Bytes.LittleEndian
import SoundLog.Diagnostic
import SoundLog.Header.Field

/-!
# Headers

The decoded main header. Positions count from the start of the file; a clock of zero means that the
chip is not used, and a stored position of zero that there is no such place, except that the
commands of a header without a data offset start after the header. `ofBytes` decodes the 64 bytes
and `toBytes` writes them back.
-/

namespace SoundLog

structure Header where
  /-- The position of the end of the file. -/
  eofOffset : Nat := 0
  version : UInt32 := 0
  sn76489Clock : Option UInt32 := none
  ym2413Clock : Option UInt32 := none
  /-- The position of the tag with the title, if there is one. -/
  gd3Offset : Option Nat := none
  sampleCount : UInt32 := 0
  /-- The position to continue from, if the music loops. -/
  loopOffset : Option Nat := none
  loopSampleCount : Option UInt32 := none
  rate : UInt32 := 0
  sn76489Feedback : UInt16 := 0
  sn76489Width : UInt8 := 0
  sn76489Flags : UInt8 := 0
  ym2612Clock : Option UInt32 := none
  ym2151Clock : Option UInt32 := none
  /-- The position at which the header says that the commands start. -/
  dataOffset : Nat := 0
  segaPcmClock : Option UInt32 := none
  segaPcmInterface : UInt32 := 0
  deriving DecidableEq

namespace Header

def isSupportedVersion (version : UInt32) : Bool := supportedVersions.contains version

/-- Zero stands for an absent value. -/
def present? (value : Nat) : Option UInt32 :=
  if value = 0 then none else some (UInt32.ofNat value)

/-- The position that a relative offset stands for; zero stands for none. -/
def position? (field : Field) (value : Nat) : Option Nat :=
  field.relativeBase.bind fun base => if value = 0 then none else some (value + base)

/-- The header whose fields hold the given numbers. -/
def ofValues (value : Field → Nat) : Header where
  eofOffset := value .eofOffset + Field.eofOffset.offset
  version := UInt32.ofNat (value .version)
  sn76489Clock := present? (value .sn76489Clock)
  ym2413Clock := present? (value .ym2413Clock)
  gd3Offset := position? .gd3Offset (value .gd3Offset)
  sampleCount := UInt32.ofNat (value .totalSamples)
  loopOffset := position? .loopOffset (value .loopOffset)
  loopSampleCount := present? (value .loopSamples)
  rate := UInt32.ofNat (value .sampleRate)
  sn76489Feedback := UInt16.ofNat (value .sn76489Feedback)
  sn76489Width := UInt8.ofNat (value .sn76489Width)
  sn76489Flags := UInt8.ofNat (value .sn76489Flags)
  ym2612Clock := present? (value .ym2612Clock)
  ym2151Clock := present? (value .ym2151Clock)
  dataOffset := (position? .dataOffset (value .dataOffset)).getD defaultDataOffset
  segaPcmClock := present? (value .segaPcmClock)
  segaPcmInterface := UInt32.ofNat (value .segaPcmInterface)

/-- The number stored in a field of a header. -/
def storedValue (bytes : List UInt8) (field : Field) : Nat := LittleEndian.toNat (field.slice bytes)

def ofBytes (bytes : List UInt8) : Header := ofValues (storedValue bytes)

/-- The number that a field of a decoded header was stored as. -/
def value (header : Header) : Field → Nat
  | .ident => LittleEndian.toNat magic
  | .eofOffset => header.eofOffset - Field.eofOffset.offset
  | .version => header.version.toNat
  | .sn76489Clock => (header.sn76489Clock.map UInt32.toNat).getD 0
  | .ym2413Clock => (header.ym2413Clock.map UInt32.toNat).getD 0
  | .gd3Offset => (header.gd3Offset.map (· - Field.gd3Offset.offset)).getD 0
  | .totalSamples => header.sampleCount.toNat
  | .loopOffset => (header.loopOffset.map (· - Field.loopOffset.offset)).getD 0
  | .loopSamples => (header.loopSampleCount.map UInt32.toNat).getD 0
  | .sampleRate => header.rate.toNat
  | .sn76489Feedback => header.sn76489Feedback.toNat
  | .sn76489Width => header.sn76489Width.toNat
  | .sn76489Flags => header.sn76489Flags.toNat
  | .ym2612Clock => (header.ym2612Clock.map UInt32.toNat).getD 0
  | .ym2151Clock => (header.ym2151Clock.map UInt32.toNat).getD 0
  | .dataOffset => header.dataOffset - Field.dataOffset.offset
  | .segaPcmClock => (header.segaPcmClock.map UInt32.toNat).getD 0
  | .segaPcmInterface => header.segaPcmInterface.toNat

def toBytes (header : Header) : List UInt8 :=
  Field.all.flatMap fun field => LittleEndian.ofNat field.length (header.value field)

/-- The version as `major.minor`, read off its hexadecimal digits. -/
def versionText (header : Header) : String :=
  let version := header.version.toNat
  Numeral.hex (version / 256) ++ "." ++ Numeral.paddedHex 2 (version % 256)

/-- From version 1.60 on, the reserved opcodes from 40 to 4E have two bytes after the tag instead
of one. -/
def hasWideReserved (header : Header) : Bool := 0x160 ≤ header.version

def samplesPerSecond : Nat := 44100

def durationSeconds (header : Header) : Float :=
  Float.ofNat header.sampleCount.toNat / Float.ofNat samplesPerSecond

/-- The duration in thousandths of a second, rounded to the nearest one. -/
def durationMilliseconds (header : Header) : Nat :=
  Numeral.roundedQuotient (header.sampleCount.toNat * 1000) samplesPerSecond

end Header
end SoundLog
