import SoundLog.Gzip.Bits

/-!
# Prefix codes

A code is a binary tree with the symbols at its leaves. A canonical code is given by the lengths of
its words alone: words of one length are consecutive numbers in the order of their symbols, and
shorter words come before longer ones.

Like the other modules on gzip this stands in for a library that unpacks files, and no theorem
depends on it.
-/

namespace SoundLog
namespace Gzip

inductive CodeTree
  | empty
  | leaf (symbol : Nat)
  | node (zero one : CodeTree)

namespace CodeTree

/-- Puts a symbol at the end of the way that a word describes. -/
def insert (symbol : Nat) : Bits → CodeTree → CodeTree
  | [], _ => leaf symbol
  | false :: word, node zero one => node (insert symbol word zero) one
  | true :: word, node zero one => node zero (insert symbol word one)
  | false :: word, _ => node (insert symbol word empty) empty
  | true :: word, _ => node empty (insert symbol word empty)

/-- What comes of reading a word. -/
inductive Decoded
  | symbol (symbol : Nat) (rest : Bits)
  /-- The bits end inside a word. -/
  | cut
  /-- No word starts like this. -/
  | invalid

def decode : CodeTree → Bits → Decoded
  | empty, _ => .invalid
  | leaf symbol, bits => .symbol symbol bits
  | node _ _, [] => .cut
  | node zero _, false :: rest => zero.decode rest
  | node _ one, true :: rest => one.decode rest

end CodeTree

namespace Canonical

def maxLength : Nat := 15

def wordCount (lengths : List Nat) (length : Nat) : Nat :=
  if length = 0 then 0 else lengths.count length

/-- The first word of a length as a number. -/
def firstWord (lengths : List Nat) : Nat → Nat
  | 0 => 0
  | length + 1 => 2 * (firstWord lengths length + wordCount lengths length)

/-- The bits of a word, the highest first. -/
def wordBits (length word : Nat) : Bits := (List.range length).reverse.map word.testBit

/-- The share of all words of the greatest length that a code uses up. -/
def usedWords (lengths : List Nat) : Nat :=
  lengths.foldr (fun length used =>
    (if length = 0 then 0 else Nat.pow 2 (maxLength - length)) + used) 0

/-- Whether lengths belong to a code: the words use up everything or, if `lenient` holds, there is
no word or only one, of one bit. -/
def isCode (lenient : Bool) (lengths : List Nat) : Bool :=
  let words := lengths.filter fun length => length ≠ 0
  usedWords lengths = Nat.pow 2 maxLength || (lenient && (words = [] || words = [1]))

/-- The tree of a canonical code. Every way through it takes a bit, even without any words. -/
def tree (lengths : List Nat) : CodeTree :=
  let firsts := (List.range (maxLength + 1)).map (firstWord lengths)
  let place (state : CodeTree × List Nat) (symbol : Nat × Nat) : CodeTree × List Nat :=
    if symbol.1 = 0 then state
    else
      let word := state.2.getD symbol.1 0
      (state.1.insert symbol.2 (wordBits symbol.1 word), state.2.set symbol.1 (word + 1))
  ((lengths.zipIdx).foldl place (.node .empty .empty, firsts)).1

def tree? (lenient : Bool) (lengths : List Nat) : Option CodeTree :=
  if isCode lenient lengths then some (tree lengths) else none

end Canonical
end Gzip
end SoundLog
