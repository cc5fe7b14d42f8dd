/-!
# Ports

The chip is written through two ports of 256 registers each. Port 0 holds the registers of the whole
chip and of channels 0 to 2, port 1 those of channels 3 to 5.
-/

namespace SoundLog
namespace Ym2612

abbrev Port := Fin 2

/-! Ports, the places of channels in a port, operators and channels are numbered from zero. -/

instance instNeZeroPorts : @NeZero Nat Zero.ofOfNat0 2 := ⟨Nat.succ_ne_zero 1⟩

instance instNeZeroSlots : @NeZero Nat Zero.ofOfNat0 3 := ⟨Nat.succ_ne_zero 2⟩

instance instNeZeroOperators : @NeZero Nat Zero.ofOfNat0 4 := ⟨Nat.succ_ne_zero 3⟩

instance instNeZeroChannels : @NeZero Nat Zero.ofOfNat0 6 := ⟨Nat.succ_ne_zero 5⟩

/-- Only the lowest bit of a port number counts. -/
def Port.ofByte (b : UInt8) : Port := Fin.ofNat 2 b.toNat

def Port.flip (port : Port) : Port := 1 - port

def Port.channel (port : Port) (slot : Fin 3) : Fin 6 := ⟨3 * port + slot, by omega⟩

end Ym2612
end SoundLog
