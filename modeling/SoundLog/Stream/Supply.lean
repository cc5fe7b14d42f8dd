import SoundLog.Stream.Source

/-!
# Supplies

What an input brings can depend on its reader at one point: some bytes come only to the read that
finds everything before them used up, and as many of them as it does not ask for are lost. With the
size of that read, a supply is a source.
-/

namespace SoundLog

structure Supply where
  source : Source
  /-- The bytes that only one read gets. -/
  passing : List UInt8 := []
  /-- What the later reads bring. -/
  rest : Source := []

namespace Supply

/-- What is brought if the read that finds `source` used up asks for `wanted` bytes. -/
def settled (supply : Supply) (wanted : Nat) : Source :=
  supply.source ++ Source.ofBytes (supply.passing.take wanted) ++ supply.rest

end Supply
end SoundLog
