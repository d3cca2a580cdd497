import Swf.Zlib.Checksum
import Swf.Zlib.PrefixCode

/-!
# Reading a compressed stream

A stream is two header bytes, blocks up to the one marked as last, and the checksum of the content.
A block is stored as it is, or written in a pair of prefix codes: one for literal bytes and the
lengths of repeats, one for the distances of repeats. The codes are either fixed or described at the
start of the block.

`inflate` is total: whatever the bytes, it gives the content up to where decoding stopped and says
why it stopped there.
-/

namespace Swf.Zlib

/-! ### Repeats -/

/-- The shortest repeat of each length symbol and the number of bits that are added to it. -/
def lengthSymbols : Array (Nat × Nat) :=
  #[(3, 0), (4, 0), (5, 0), (6, 0), (7, 0), (8, 0), (9, 0), (10, 0), (11, 1), (13, 1), (15, 1),
    (17, 1), (19, 2), (23, 2), (27, 2), (31, 2), (35, 3), (43, 3), (51, 3), (59, 3), (67, 4),
    (83, 4), (99, 4), (115, 4), (131, 5), (163, 5), (195, 5), (227, 5), (258, 0)]

/-- The shortest distance of each distance symbol and the number of bits that are added to it. -/
def distanceSymbols : Array (Nat × Nat) :=
  #[(1, 0), (2, 0), (3, 0), (4, 0), (5, 1), (7, 1), (9, 2), (13, 2), (17, 3), (25, 3), (33, 4),
    (49, 4), (65, 5), (97, 5), (129, 6), (193, 6), (257, 7), (385, 7), (513, 8), (769, 8),
    (1025, 9), (1537, 9), (2049, 10), (3073, 10), (4097, 11), (6145, 11), (8193, 12), (12289, 12),
    (16385, 13), (24577, 13)]

/-- The value of a symbol: what its table row says, with the bits that follow it added. -/
def symbolValue (table : Array (Nat × Nat)) (symbol : Nat) : Inflater Nat :=
  match table[symbol]? with
  | none => throw .damaged
  | some (base, extra) => do return base + (← Inflater.takeBits extra)

/-! ### The codes of a block -/

/-- The two codes of a block. -/
structure BlockCodes where
  literals : PrefixCode
  distances : PrefixCode

/-- The codes of a block that describes none. -/
def fixedCodes : BlockCodes where
  literals := .ofLengths (List.replicate 144 8 ++ List.replicate 112 9 ++ List.replicate 24 7 ++
    List.replicate 8 8)
  distances := .ofLengths (List.replicate 32 5)

/-- The order in which the word lengths of the code for word lengths are given. -/
def lengthOrder : List Nat := [16, 17, 18, 0, 8, 7, 9, 6, 10, 5, 11, 4, 12, 3, 13, 2, 14, 1, 15]

/-- Reads `total` word lengths in the code `c`. Symbols above 15 repeat: 16 the length before, 17
and 18 zero. `found` holds the lengths so far, the last one first; `fuel` bounds the symbols, each
of which gives at least one length. -/
def takeLengths (c : PrefixCode) (total : Nat) : Nat → List Nat → Inflater (List Nat)
  | 0, _ => throw .damaged
  | fuel + 1, found => do
    if found.length = total then return found.reverse
    if found.length > total then throw .damaged
    let symbol ← c.decode
    if symbol < 16 then takeLengths c total fuel (symbol :: found)
    else if symbol = 16 then
      match found with
      | [] => throw .damaged
      | previous :: _ =>
        let count := 3 + (← Inflater.takeBits 2)
        takeLengths c total fuel (List.replicate count previous ++ found)
    else
      let count ← if symbol = 17 then (3 + ·) <$> Inflater.takeBits 3
        else (11 + ·) <$> Inflater.takeBits 7
      takeLengths c total fuel (List.replicate count 0 ++ found)

/-- Reads `n` three-bit word lengths. -/
def takeShortLengths : Nat → Inflater (List Nat)
  | 0 => pure []
  | n + 1 => do
    let length ← Inflater.takeBits 3
    return length :: (← takeShortLengths n)

/-- Reads the codes that a block describes. -/
def takeCodes : Inflater BlockCodes := do
  let literals := 257 + (← Inflater.takeBits 5)
  let distances := 1 + (← Inflater.takeBits 5)
  let given := 4 + (← Inflater.takeBits 4)
  -- The fields could say more than there are symbols with a meaning.
  if literals > 286 || distances > 30 then throw .damaged
  let short := lengthOrder.zip (← takeShortLengths given)
  let lengthCode := PrefixCode.ofLengths <|
    (List.range 19).map fun symbol => (short.lookup symbol).getD 0
  unless lengthCode.isComplete do throw .damaged
  let total := literals + distances
  let lengths ← takeLengths lengthCode total (total + 1) []
  let codes : BlockCodes :=
    { literals := .ofLengths (lengths.take literals)
      distances := .ofLengths (lengths.drop literals) }
  unless codes.literals.isUsable && codes.distances.isUsable do throw .damaged
  return codes

/-! ### Blocks -/

/-- Reads literals and repeats up to the end of a block. `fuel` bounds their number; each takes at
least one bit. -/
def coded (codes : BlockCodes) : Nat → Inflater Unit
  | 0 => throw .cutOff
  | fuel + 1 => do
    let symbol ← codes.literals.decode
    if symbol < 256 then
      Inflater.put (UInt8.ofNat symbol)
      coded codes fuel
    else if symbol = 256 then return
    else
      let length ← symbolValue lengthSymbols (symbol - 257)
      let distance ← symbolValue distanceSymbols (← codes.distances.decode)
      Inflater.copyBack distance length
      coded codes fuel

/-- Copies the bytes of a stored block. -/
def storedBytes : Nat → Inflater Unit
  | 0 => pure ()
  | n + 1 => do
    Inflater.copyByte
    storedBytes n

/-- Reads a stored block. -/
def stored : Inflater Unit := do
  Inflater.toByte
  let length := littleEndian (← Inflater.takeBytes 2)
  let complement := littleEndian (← Inflater.takeBytes 2)
  unless length + complement = 0xFFFF do throw .damaged
  storedBytes length

/-- Reads one block and says whether it is the last one. `fuel` bounds its symbols. -/
def block (fuel : Nat) : Inflater Bool := do
  let last ← Inflater.takeBit
  match ← Inflater.takeBits 2 with
  | 0 => stored
  | 1 => coded fixedCodes fuel
  | 2 => coded (← takeCodes) fuel
  | _ => throw .damaged
  return last

/-- Reads blocks up to the last one. `fuel` bounds their number; each takes at least three bits. -/
def blocks (symbols : Nat) : Nat → Inflater Unit
  | 0 => throw .cutOff
  | fuel + 1 => do
    unless ← block symbols do blocks symbols fuel

/-! ### Streams -/

/-- Reads the two header bytes: the method, a window of at most 2^15 bytes, no preset dictionary,
and a check digit. -/
def header : Inflater Unit := do
  let method := (← Inflater.takeBits 8)
  let flags := (← Inflater.takeBits 8)
  if (method * 256 + flags) % 31 ≠ 0 || method % 16 ≠ 8 || method / 16 > 7 || flags.testBit 5 then
    throw .damaged

/-- Reads a whole stream. -/
def stream (bits : Nat) : Inflater Unit := do
  header
  blocks (bits + 1) (bits + 1)
  Inflater.toByte
  let sum ← Inflater.takeBytes 4
  unless littleEndian sum.reverse = checksum (← get).output.toList do throw .damaged

/-- How a compressed stream ends. -/
inductive Ending where
  /-- It is complete, with these bytes behind it. -/
  | complete (rest : List UInt8)
  | stopped (cause : Stop)
deriving DecidableEq, Repr

/-- The content of a compressed stream and how the stream ends. -/
structure Inflated where
  content : List UInt8
  ending : Ending
  /-- For each full window of the content, how many bytes of the stream were untouched when the
  byte behind the window was due. -/
  untouched : List Nat
deriving DecidableEq, Repr

/-- Decodes a compressed stream as far as it goes. -/
def inflate (input : List UInt8) : Inflated :=
  match stream (8 * input.length) { input } with
  | .ok _ p => ⟨p.output.toList, .complete p.input, p.untouched.toList⟩
  | .error cause p => ⟨p.output.toList, .stopped cause, p.untouched.toList⟩

end Swf.Zlib
