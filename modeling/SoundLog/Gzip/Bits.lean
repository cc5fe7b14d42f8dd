/-!
# Bits

Compressed data is a sequence of bits, taken from each byte from the lowest up. Numbers are stored
with their lowest bit first.

The modules on gzip stand in for a library that unpacks files. They serve the program only: no
theorem about logs, chips or voices depends on them.
-/

namespace SoundLog
namespace Gzip

/-- The bits still to come. They end where a byte ends. -/
abbrev Bits := List Bool

namespace Bits

def ofByte (b : UInt8) : Bits := (List.range 8).map b.toNat.testBit

def ofBytes (bs : List UInt8) : Bits := bs.flatMap ofByte

/-- The number with the given bits, lowest first. -/
def toNat : Bits → Nat
  | [] => 0
  | bit :: rest => bit.toNat + 2 * toNat rest

def number? (n : Nat) (bits : Bits) : Option (Nat × Bits) :=
  let taken := bits.take n
  if taken.length = n then some (toNat taken, bits.drop n) else none

/-- The bits from the next start of a byte on. -/
def aligned (bits : Bits) : Bits := bits.drop (bits.length % 8)

/-- The whole bytes that the bits make up. -/
def toBytes : Bits → List UInt8
  | a :: b :: c :: d :: e :: f :: g :: h :: rest =>
    UInt8.ofNat (toNat [a, b, c, d, e, f, g, h]) :: toBytes rest
  | _ => []

end Bits
end Gzip
end SoundLog
