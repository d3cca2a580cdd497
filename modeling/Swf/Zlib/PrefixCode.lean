import Swf.Zlib.Bits

/-!
# Canonical prefix codes

A code is given by the length of each symbol's word. Words of one length are consecutive numbers in
the order of their symbols, and the first word of a length follows the last one of the length
below. So the number of words of each length and the symbols in order of their words say
everything.
-/

namespace Swf.Zlib

/-- A canonical prefix code. -/
structure PrefixCode where
  /-- How many words there are of each length, from one bit up to the longest word. -/
  counts : List Nat
  /-- The symbols in the order of their words. -/
  symbols : Array Nat
deriving Repr

namespace PrefixCode

/-- The symbols whose word has this length, in order. -/
def symbolsOfLength (lengths : List Nat) (length : Nat) : List Nat :=
  (lengths.zipIdx.filter (·.1 == length)).map (·.2)

/-- The lengths that words have: those from one bit up to the longest. -/
def wordLengths (lengths : List Nat) : List Nat := List.range' 1 (lengths.foldl max 1)

/-- The code with these word lengths; length zero means that a symbol has no word. -/
def ofLengths (lengths : List Nat) : PrefixCode where
  counts := (wordLengths lengths).map fun n => (symbolsOfLength lengths n).length
  symbols := ((wordLengths lengths).flatMap (symbolsOfLength lengths)).toArray

/-- The share of all bit strings of the longest length that start with a word, twice over. -/
def covered (c : PrefixCode) : Nat :=
  c.counts.foldl (fun total count => 2 * (total + count)) 0

/-- Whether every bit string starts with exactly one word. -/
def isComplete (c : PrefixCode) : Bool := c.covered == Nat.pow 2 (c.counts.length + 1)

/-- Whether a code may stand in a stream: it is complete, or it has at most one word, of one bit. -/
def isUsable (c : PrefixCode) : Bool := c.isComplete || c.counts == [0] || c.counts == [1]

/-- Reads a word bit by bit. `word` holds the bits so far, `first` the first word of the length at
hand and `index` its place among the symbols. Bits that no word starts with are damage. -/
def decodeFrom (symbols : Array Nat) (word first index : Nat) : List Nat → Inflater Nat
  | [] => throw .damaged
  | count :: counts => do
    let word := 2 * word + (← Inflater.takeBit).toNat
    -- Every prefix of a longer word lies behind all words of the length at hand.
    if word < first + count then return symbols.getD (index + (word - first)) 0
    else decodeFrom symbols word (2 * (first + count)) (index + count) counts

/-- Reads one symbol. -/
def decode (c : PrefixCode) : Inflater Nat := decodeFrom c.symbols 0 0 0 c.counts

end PrefixCode

end Swf.Zlib
