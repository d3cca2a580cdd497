import Swf.Reader
import Swf.Writer

/-!
# Record headers

Every record starts with its code and the length of its payload. The short form packs both into
one 16-bit word, ten bits of code above six bits of length. A length field of all ones announces
the long form, in which the length follows as a word of its own.
-/

namespace Swf

/-- Code and payload length of a record; the header itself is not counted. -/
structure RecordHeader where
  code : UInt16
  length : UInt32
deriving DecidableEq, Repr

namespace RecordHeader

/-- The length field that announces the long form. -/
def lengthEscape : UInt16 := 0x3F

/-- The largest code that fits into ten bits. -/
def maxCode : UInt16 := 0x3FF

/-- Reads a header in either form. -/
def read : Decoder RecordHeader := do
  let word ← Decoder.readUInt16
  let short := word &&& lengthEscape
  let length ← if short = lengthEscape then Decoder.readUInt32 else pure short.toUInt32
  return { code := word >>> 6, length }

/-- Whether the header is written in its long form. -/
def needsLongForm (h : RecordHeader) (forceLong : Bool) : Bool :=
  forceLong || h.length ≥ lengthEscape.toUInt32

/-- The encoded size in bytes. -/
def encodedLength (h : RecordHeader) (forceLong : Bool) : Nat :=
  if h.needsLongForm forceLong then 6 else 2

/-- Writes a header, in its long form if the length asks for it or `forceLong` is set. -/
def write (h : RecordHeader) (forceLong : Bool) : Encoder Unit := do
  if h.code > maxCode then throw (.rangeOverflow .recordCode (bitLength h.code.toNat) 10)
  if h.needsLongForm forceLong then
    Encoder.writeUInt16 ((h.code <<< 6) ||| lengthEscape)
    Encoder.writeUInt32 h.length
  else
    Encoder.writeUInt16 ((h.code <<< 6) ||| h.length.toUInt16)

end RecordHeader

end Swf
