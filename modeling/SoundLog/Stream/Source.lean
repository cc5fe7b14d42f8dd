import SoundLog.Text.Numeral

/-!
# Byte sources

A device hands out bytes in pieces of its own choice. Between the pieces a read may be interrupted,
may bring nothing although more is to come, or may fail. A source is the list of what the coming
reads will bring, so that every order of these events is a value. `pull` fetches one byte and
`discard` drops several; both wait out interruptions.

Of the kinds of faults only those are told apart that occur in the inputs of the program. Reading a
log asks of a kind just whether it is `unexpectedEof`, so a kind that is not listed is like `other`.
-/

namespace SoundLog

inductive FaultKind
  | other
  | invalidData
  | invalidInput
  | brokenPipe
  | timedOut
  | unexpectedEof
  | isADirectory
  deriving DecidableEq

/-- A read that failed, as the device reports it. -/
structure Fault where
  kind : FaultKind
  message : String
  deriving DecidableEq

/-- What one read brings. A piece of bytes has at least one. -/
inductive Delivery
  | chunk (first : UInt8) (more : List UInt8)
  | interrupted
  /-- The read returns no byte, as at the end of the data. -/
  | pause
  | fault (fault : Fault)
  deriving DecidableEq

/-- The deliveries to come. After the last one every read returns no byte. -/
abbrev Source := List Delivery

/-- What comes of asking for one byte. -/
inductive Pull
  | byte (value : UInt8) (rest : Source)
  | ended (rest : Source)
  | fault (fault : Fault) (rest : Source)
  deriving DecidableEq

/-- What comes of dropping a number of bytes; `missing` of them did not come before the end. -/
inductive Discard
  | done (rest : Source)
  | ended (missing : Nat) (rest : Source)
  | fault (fault : Fault) (rest : Source)
  deriving DecidableEq

namespace Delivery

/-- A piece of bytes; an empty one is no delivery. -/
def ofBytes? : List UInt8 → Option Delivery
  | [] => none
  | b :: bs => some (chunk b bs)

def bytes : Delivery → List UInt8
  | chunk b bs => b :: bs
  | _ => []

end Delivery

namespace Source

def ofBytes (bs : List UInt8) : Source := (Delivery.ofBytes? bs).toList

/-- Every byte that is still to come, past pauses and faults. -/
def bytes (source : Source) : List UInt8 := source.flatMap Delivery.bytes

def size (source : Source) : Nat := source.bytes.length

def pull : Source → Pull
  | [] => .ended []
  | .chunk b [] :: rest => .byte b rest
  | .chunk b (c :: more) :: rest => .byte b (.chunk c more :: rest)
  | .interrupted :: rest => pull rest
  | .pause :: rest => .ended rest
  | .fault f :: rest => .fault f rest

/-- Drops `n` bytes. For `n = 0` the device is not asked. -/
def discard : Nat → Source → Discard
  | 0, source => .done source
  | n + 1, source =>
    match pull source with
    | .byte _ rest => discard n rest
    | .ended rest => .ended (n + 1) rest
    | .fault f rest => .fault f rest

theorem size_of_pull_byte {source rest : Source} {b : UInt8} (h : source.pull = .byte b rest) :
    rest.size + 1 = source.size := by
  fun_induction pull source with
  | case1 => cases h
  | case2 b' rest' =>
    cases h
    simp [size, bytes, Delivery.bytes, Nat.add_comm]
  | case3 b' c more rest' =>
    cases h
    simp [size, bytes, Delivery.bytes]
  | case4 rest' ih => simpa [size, bytes, Delivery.bytes] using ih h
  | case5 => cases h
  | case6 => cases h

theorem size_of_pull_ended {source rest : Source} (h : source.pull = .ended rest) :
    rest.size = source.size := by
  fun_induction pull source with
  | case1 =>
    cases h
    rfl
  | case2 => cases h
  | case3 => cases h
  | case4 rest' ih => simpa [size, bytes, Delivery.bytes] using ih h
  | case5 rest' =>
    cases h
    simp [size, bytes, Delivery.bytes]
  | case6 => cases h

theorem size_of_pull_fault {source rest : Source} {f : Fault} (h : source.pull = .fault f rest) :
    rest.size = source.size := by
  fun_induction pull source with
  | case1 => cases h
  | case2 => cases h
  | case3 => cases h
  | case4 rest' ih => simpa [size, bytes, Delivery.bytes] using ih h
  | case5 => cases h
  | case6 f' rest' =>
    cases h
    simp [size, bytes, Delivery.bytes]

theorem size_of_discard_done {n : Nat} {source rest : Source} (h : source.discard n = .done rest) :
    rest.size + n = source.size := by
  fun_induction discard n source with
  | case1 source' =>
    cases h
    rfl
  | case2 n source' b rest' hpull ih =>
    have hsize := size_of_pull_byte hpull
    have hrest := ih h
    omega
  | case3 => cases h
  | case4 => cases h

theorem size_of_discard_ended {n missing : Nat} {source rest : Source}
    (h : source.discard n = .ended missing rest) :
    missing ≤ n ∧ rest.size + (n - missing) = source.size := by
  fun_induction discard n source with
  | case1 => cases h
  | case2 n source' b rest' hpull ih =>
    have hsize := size_of_pull_byte hpull
    have hrest := ih h
    omega
  | case3 n source' rest' hpull =>
    cases h
    have hsize := size_of_pull_ended hpull
    omega
  | case4 => cases h

theorem size_of_discard_fault {n : Nat} {source rest : Source} {f : Fault}
    (h : source.discard n = .fault f rest) : rest.size ≤ source.size := by
  fun_induction discard n source with
  | case1 => cases h
  | case2 n source' b rest' hpull ih =>
    have hsize := size_of_pull_byte hpull
    have hrest := ih h
    omega
  | case3 => cases h
  | case4 n source' f' rest' hpull =>
    cases h
    exact Nat.le_of_eq (size_of_pull_fault hpull)

end Source
end SoundLog
