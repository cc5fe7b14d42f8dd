import SoundLog.Gzip.Huffman

/-!
# Inflating

Compressed data is a sequence of blocks: stored bytes, or symbols of two prefix codes. A symbol is a
byte, the end of the block, or the length of a piece that is repeated from a distance back in the
output. Before its start the output counts as zeros. Data that ends too soon, or makes no sense from
some point on, gives what it says in full. Where data has ended, inflating can be taken up again
with what follows.

Every round of a loop takes a bit at least, so the number of bits bounds the number of rounds.

Like the other modules on gzip this stands in for a library that unpacks files, and no theorem
depends on it.
-/

namespace SoundLog
namespace Gzip
namespace Inflate

/-! ## Repeated pieces -/

/-- The shortest length of each length symbol and the number of bits added to it. -/
def lengthTable : Array (Nat × Nat) :=
  #[(3, 0), (4, 0), (5, 0), (6, 0), (7, 0), (8, 0), (9, 0), (10, 0), (11, 1), (13, 1), (15, 1),
    (17, 1), (19, 2), (23, 2), (27, 2), (31, 2), (35, 3), (43, 3), (51, 3), (59, 3), (67, 4),
    (83, 4), (99, 4), (115, 4), (131, 5), (163, 5), (195, 5), (227, 5), (258, 0)]

/-- The shortest distance of each distance symbol and the number of bits added to it. -/
def distanceTable : Array (Nat × Nat) :=
  #[(1, 0), (2, 0), (3, 0), (4, 0), (5, 1), (7, 1), (9, 2), (13, 2), (17, 3), (25, 3), (33, 4),
    (49, 4), (65, 5), (97, 5), (129, 6), (193, 6), (257, 7), (385, 7), (513, 8), (769, 8),
    (1025, 9), (1537, 9), (2049, 10), (3073, 10), (4097, 11), (6145, 11), (8193, 12), (12289, 12),
    (16385, 13), (24577, 13)]

/-- Appends `length` bytes, each a copy of the one `distance` back. -/
def repeatPiece (distance : Nat) : (length : Nat) → Array UInt8 → Array UInt8
  | 0, output => output
  | length + 1, output =>
    let b := if distance ≤ output.size then output.getD (output.size - distance) 0 else 0
    repeatPiece distance length (output.push b)

/-! ## Blocks of symbols -/

structure Codes where
  literals : CodeTree
  distances : CodeTree

/-- What is left of a block behind its head. -/
inductive Body
  | stored (length : Nat)
  | items (codes : Codes)

inductive BodyResult
  | done (output : Array UInt8) (rest : Bits)
  /-- The bits end in the body; `rest` has not been used. -/
  | cut (output : Array UInt8) (left : Body) (rest : Bits)
  | corrupt (output : Array UInt8)

structure Block where
  isLast : Bool
  body : Body

inductive Item
  | byte (b : UInt8)
  | finish
  | piece (length distance : Nat)

/-- What comes of reading from the bits of a block. -/
inductive Got (α : Type)
  | value (value : α) (rest : Bits)
  | cut
  | corrupt

def Got.map {α β : Type} (f : α → β) : Got α → Got β
  | value a rest => value (f a) rest
  | cut => cut
  | corrupt => corrupt

/-- A number that a symbol gives by a table, with the bits added to it. -/
def tableNumber (table : Array (Nat × Nat)) (symbol : Nat) (bits : Bits) : Got Nat :=
  match table[symbol]? with
  | none => .corrupt
  | some (least, extra) =>
    match bits.number? extra with
    | none => .cut
    | some (more, rest) => .value (least + more) rest

def item (codes : Codes) (bits : Bits) : Got Item :=
  match codes.literals.decode bits with
  | .cut => .cut
  | .invalid => .corrupt
  | .symbol symbol rest =>
    if symbol < 256 then .value (.byte (UInt8.ofNat symbol)) rest
    else if symbol = 256 then .value .finish rest
    else
      match tableNumber lengthTable (symbol - 257) rest with
      | .cut => .cut
      | .corrupt => .corrupt
      | .value length rest =>
        match codes.distances.decode rest with
        | .cut => .cut
        | .invalid => .corrupt
        | .symbol symbol rest =>
          match tableNumber distanceTable symbol rest with
          | .cut => .cut
          | .corrupt => .corrupt
          | .value distance rest => .value (.piece length distance) rest

/-- The items of a block up to its end, `rounds` at most. -/
def items (codes : Codes) : (rounds : Nat) → Array UInt8 → Bits → BodyResult
  | 0, output, bits => .cut output (.items codes) bits
  | rounds + 1, output, bits =>
    match item codes bits with
    | .cut => .cut output (.items codes) bits
    | .corrupt => .corrupt output
    | .value (.byte b) rest => items codes rounds (output.push b) rest
    | .value .finish rest => .done output rest
    | .value (.piece length distance) rest =>
      items codes rounds (repeatPiece distance length output) rest

/-! ## Codes -/

/-- The lengths of the code that needs no description. -/
def fixedLengths : List Nat :=
  List.replicate 144 8 ++ List.replicate 112 9 ++ List.replicate 24 7 ++ List.replicate 8 8

def fixedCodes : Codes :=
  { literals := Canonical.tree fixedLengths, distances := Canonical.tree (List.replicate 32 5) }

/-- The order in which the lengths of the code for lengths are stored. -/
def lengthOrder : List Nat := [16, 17, 18, 0, 8, 7, 9, 6, 10, 5, 11, 4, 12, 3, 13, 2, 14, 1, 15]

/-- The lengths of the code for lengths, of which `n` are stored with three bits each. -/
def lengthCodeLengths (n : Nat) (bits : Bits) : Option (List Nat × Bits) :=
  match bits.number? (3 * n) with
  | none => none
  | some (packed, rest) =>
    let stored := lengthOrder.zipIdx.map fun place =>
      (place.1, if place.2 < n then packed / Nat.pow 8 place.2 % 8 else 0)
    some ((List.range 19).map fun symbol => (stored.lookup symbol).getD 0, rest)

/-- The lengths of `wanted` words, `done` of which are known, the last one first. -/
def codeLengths (tree : CodeTree) (wanted : Nat) : (rounds : Nat) → (known : List Nat) → Bits →
    Got (List Nat)
  | 0, _, _ => .cut
  | rounds + 1, known, bits =>
    if known.length = wanted then .value known.reverse bits
    else if wanted < known.length then .corrupt
    else
      match tree.decode bits with
      | .cut => .cut
      | .invalid => .corrupt
      | .symbol symbol rest =>
        if symbol < 16 then codeLengths tree wanted rounds (symbol :: known) rest
        else
          let run (length least width : Nat) : Got (List Nat) :=
            match rest.number? width with
            | none => .cut
            | some (more, rest) =>
              codeLengths tree wanted rounds (List.replicate (least + more) length ++ known) rest
          if symbol = 16 then
            match known with
            | [] => .corrupt
            | length :: _ => run length 3 2
          else if symbol = 17 then run 0 3 3
          else run 0 11 7

def readCodes (bits : Bits) : Got Codes :=
  match bits.number? 14 with
  | none => .cut
  | some (counts, rest) =>
    let literals := 257 + counts % 32
    let distances := 1 + counts / 32 % 32
    if 286 < literals ∨ 30 < distances then .corrupt
    else
      match lengthCodeLengths (4 + counts / 1024) rest with
      | none => .cut
      | some (lengths, rest) =>
        match Canonical.tree? false lengths with
        | none => .corrupt
        | some tree =>
          match codeLengths tree (literals + distances) (rest.length + 1) [] rest with
          | .cut => .cut
          | .corrupt => .corrupt
          | .value lengths rest =>
            match Canonical.tree? true (lengths.take literals),
              Canonical.tree? true (lengths.drop literals) with
            | some literals, some distances => .value ⟨literals, distances⟩ rest
            | _, _ => .corrupt

/-! ## Blocks -/

/-- The number of stored bytes, which stands in front of them with its complement. -/
def readStored (bits : Bits) : Got Body :=
  match bits.aligned.number? 32 with
  | none => .cut
  | some (counts, rest) =>
    let length := counts % 65536
    if length + counts / 65536 = 65535 then .value (.stored length) rest else .corrupt

def readBlock (bits : Bits) : Got Block :=
  match bits.number? 3 with
  | none => .cut
  | some (head, rest) =>
    let body : Got Body :=
      match head / 2 with
      | 0 => readStored rest
      | 1 => .value (.items fixedCodes) rest
      | 2 => (readCodes rest).map .items
      | _ => .corrupt
    body.map fun body => ⟨head % 2 = 1, body⟩

def storedBytes (length : Nat) (output : Array UInt8) (bits : Bits) : BodyResult :=
  let stored := Bits.toBytes (bits.take (8 * length))
  let output := output ++ stored.toArray
  let rest := bits.drop (8 * stored.length)
  if stored.length = length then .done output rest
  else .cut output (.stored (length - stored.length)) rest

/-- The body of a block, `rounds` items at most. -/
def inflateBody (rounds : Nat) (output : Array UInt8) (bits : Bits) : Body → BodyResult
  | .stored length => storedBytes length output bits
  | .items codes => items codes rounds output bits

end Inflate

/-- What comes of inflating. -/
inductive Inflated
  /-- The output and what follows the compressed data. -/
  | complete (output : Array UInt8) (rest : Bits)
  /-- The data ends too soon, in a block unless it ends in front of one or in the head of one. The
  bits of `rest` have not been used. -/
  | incomplete (output : Array UInt8) (block? : Option Inflate.Block) (rest : Bits)
  | corrupt (output : Array UInt8)

/-- Goes on with what is left of a block, or with the next one, up to the end of the last block. Two
rounds at most go by for a block, which has a head of three bits at least. -/
def Inflate.blocks : (rounds : Nat) → Array UInt8 → Option Block → Bits → Inflated
  | 0, output, block?, bits => .incomplete output block? bits
  | rounds + 1, output, none, bits =>
    match readBlock bits with
    | .cut => .incomplete output none bits
    | .corrupt => .corrupt output
    | .value block rest => blocks rounds output (some block) rest
  | rounds + 1, output, some block, bits =>
    match inflateBody rounds output bits block.body with
    | .cut output body rest => .incomplete output (some { block with body }) rest
    | .corrupt output => .corrupt output
    | .done output rest =>
      if block.isLast then .complete output rest.aligned else blocks rounds output none rest

namespace Inflated

def output : Inflated → Array UInt8
  | complete output _ => output
  | incomplete output .. => output
  | corrupt output => output

def size (inflated : Inflated) : Nat := inflated.output.size

def start : Inflated := incomplete #[] none []

/-- Goes on with the bytes that follow. -/
def resume (bytes : List UInt8) : Inflated → Inflated
  | complete output rest => complete output (rest ++ Bits.ofBytes bytes)
  | incomplete output block? rest =>
    let bits := rest ++ Bits.ofBytes bytes
    Inflate.blocks (bits.length + 2) output block? bits
  | corrupt output => corrupt output

def isUsedUp : Inflated → Bool
  | complete _ rest => rest.isEmpty
  | incomplete .. => true
  | corrupt _ => false

/-- Whether the next byte is a stored one. -/
def isStoring : Inflated → Bool
  | incomplete _ (some ⟨_, .stored _⟩) _ => true
  | _ => false

end Inflated

def inflate (bytes : List UInt8) : Inflated := Inflated.start.resume bytes

end Gzip
end SoundLog
