/-!
# Header fields

The main header is 64 bytes long and made of 18 fields without gaps. Four of them hold positions
relative to the place of the field itself.
-/

namespace SoundLog
namespace Header

/-- The bytes every log starts with: `Vgm` and a space. -/
def magic : List UInt8 := [0x56, 0x67, 0x6D, 0x20]

def supportedVersions : List UInt32 := [0x150, 0x151, 0x160, 0x161, 0x170, 0x171]

def size : Nat := 0x40

/-- The data offset of a header that stores none. -/
def defaultDataOffset : Nat := 12

end Header

inductive Field
  | ident
  | eofOffset
  | version
  | sn76489Clock
  | ym2413Clock
  | gd3Offset
  | totalSamples
  | loopOffset
  | loopSamples
  | sampleRate
  | sn76489Feedback
  | sn76489Width
  | sn76489Flags
  | ym2612Clock
  | ym2151Clock
  | dataOffset
  | segaPcmClock
  | segaPcmInterface
  deriving DecidableEq

namespace Field

/-- The fields in the order of their places. -/
def all : List Field :=
  [ident, eofOffset, version, sn76489Clock, ym2413Clock, gd3Offset, totalSamples, loopOffset,
    loopSamples, sampleRate, sn76489Feedback, sn76489Width, sn76489Flags, ym2612Clock, ym2151Clock,
    dataOffset, segaPcmClock, segaPcmInterface]

def offset : Field → Nat
  | ident => 0x00
  | eofOffset => 0x04
  | version => 0x08
  | sn76489Clock => 0x0C
  | ym2413Clock => 0x10
  | gd3Offset => 0x14
  | totalSamples => 0x18
  | loopOffset => 0x1C
  | loopSamples => 0x20
  | sampleRate => 0x24
  | sn76489Feedback => 0x28
  | sn76489Width => 0x2A
  | sn76489Flags => 0x2B
  | ym2612Clock => 0x2C
  | ym2151Clock => 0x30
  | dataOffset => 0x34
  | segaPcmClock => 0x38
  | segaPcmInterface => 0x3C

def length : Field → Nat
  | sn76489Feedback => 2
  | sn76489Width => 1
  | sn76489Flags => 1
  | _ => 4

def stop (field : Field) : Nat := field.offset + field.length

/-- What has to be added to a position stored in the field to count it from the start of the
file. -/
def relativeBase : Field → Option Nat
  | eofOffset => some eofOffset.offset
  | gd3Offset => some gd3Offset.offset
  | loopOffset => some loopOffset.offset
  | dataOffset => some dataOffset.offset
  | _ => none

def slice (field : Field) (header : List UInt8) : List UInt8 :=
  (header.drop field.offset).take field.length

theorem mem_all (field : Field) : field ∈ all := by cases field <;> decide

end Field
end SoundLog
