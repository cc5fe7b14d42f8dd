/-!
# Checksums

The cyclic redundancy check with the polynomial EDB88320, lowest bit first.

Like the other modules on gzip this stands in for a library that unpacks files, and no theorem
depends on it.
-/

namespace SoundLog
namespace Gzip

def shiftChecksum (remainder : UInt32) : UInt32 :=
  if remainder &&& 1 = 1 then (remainder >>> 1) ^^^ 0xEDB88320 else remainder >>> 1

def addToChecksum (remainder : UInt32) (b : UInt8) : UInt32 :=
  (List.range 8).foldl (fun r _ => shiftChecksum r) (remainder ^^^ b.toUInt32)

def checksum (bs : List UInt8) : UInt32 := bs.foldl addToChecksum 0xFFFFFFFF ^^^ 0xFFFFFFFF

end Gzip
end SoundLog
