import Swf.CodecError
import Swf.Sink
import Swf.Word

/-!
# Writing fields to a byte sink

A writer is a sink together with the number of whole bytes written and the bits of a byte that is
not complete yet. Integers are written low byte first, bit fields from the top bit down; every
byte-level write first fills the pending byte with zeros.

An encoder keeps the writer it has reached also when it fails, so what a failure leaves behind can
be stated: a value that is too wide or a string with a zero byte is refused before anything is
written.
-/

namespace Swf

/-- A byte sink in the middle of being written. -/
structure Writer where
  sink : Sink := {}
  /-- Number of whole bytes written. -/
  position : Nat := 0
  /-- The bits of the byte that is not complete yet, from the top down. -/
  bitBuf : UInt8 := 0
  /-- How many bits of `bitBuf` are used. -/
  bitCount : Nat := 0
deriving DecidableEq, Repr

/-- A computation that writes fields and may fail; the writer outlives the failure. -/
abbrev Encoder (α : Type) := EStateM CodecError Writer α

namespace Encoder

/-- Hands bytes to the sink; the bit state stays. -/
def emit (data : List UInt8) : Encoder Unit := fun w =>
  match w.sink.write data with
  | (true, sink) => .ok () { w with sink, position := w.position + data.length }
  | (false, sink) => .error (.io .sinkFull) { w with sink }

/-- Fills the pending byte with zeros and writes it. It counts as written from here on, also when
the sink refuses it. -/
def align : Encoder Unit := do
  let w ← get
  if w.bitCount > 0 then
    -- The byte leaves the writer first: a refused byte is not written again.
    set { w with bitBuf := 0, bitCount := 0 }
    emit [w.bitBuf]

/-- Bytes as they are. -/
def writeBytes (data : List UInt8) : Encoder Unit := do align; emit data

/-- An 8-bit integer. -/
def writeUInt8 (v : UInt8) : Encoder Unit := writeBytes [v]

/-- A 16-bit integer, low byte first. -/
def writeUInt16 (v : UInt16) : Encoder Unit := writeBytes (bytesOfUInt16 v)

/-- A 32-bit integer, low byte first. -/
def writeUInt32 (v : UInt32) : Encoder Unit := writeBytes (bytesOfUInt32 v)

/-- One bit, below those already pending; a complete byte is written at once. -/
def writeBit (bit : Bool) : Encoder Unit := do
  let w ← get
  set { w with
    bitBuf := w.bitBuf ||| (bit.toUInt8 <<< UInt8.ofNat (7 - w.bitCount))
    bitCount := w.bitCount + 1 }
  if w.bitCount + 1 = 8 then align

/-- The low bits of `v`, the top one first. -/
def writeBits (v : UInt32) : Nat → Encoder Unit
  | 0 => pure ()
  | bits + 1 => do
    writeBit (v.toNat.testBit bits)
    writeBits v bits

/-- An unsigned bit field of at most 32 bits. A value that needs more bits is refused. -/
def writeUnsigned (bits : Nat) (v : UInt32) : Encoder Unit := do
  if bitLength v.toNat > bits then
    throw (.rangeOverflow .unsignedBits (bitLength v.toNat) bits)
  writeBits v bits

/-- Whether a two's-complement field of `bits` bits can hold `v`. -/
def FitsSigned (bits : Nat) (v : Int32) : Prop :=
  let bound : Int := Nat.pow 2 (bits - 1)
  if bits = 0 then v = 0 else -bound ≤ v.toInt ∧ v.toInt < bound

instance (bits : Nat) (v : Int32) : Decidable (FitsSigned bits v) := by
  unfold FitsSigned; infer_instance

/-- A signed bit field of at most 32 bits, in two's complement. A value that does not fit is
refused; the error counts the bits of its magnitude and one for the sign. -/
def writeSigned (bits : Nat) (v : Int32) : Encoder Unit := do
  unless FitsSigned bits v do
    throw (.rangeOverflow .signedBits (if bits = 0 then 1 else bitLength v.toInt.natAbs + 1) bits)
  writeUnsigned bits (twosComplement bits v.toInt)

/-- A flag of one bit. -/
def writeFlag (v : Bool) : Encoder Unit := writeUnsigned 1 v.toUInt32

/-- A string of UTF-8 that ends with a zero byte. A string that holds a zero byte is refused: a
reader would stop there. -/
def writeString (text : String) : Encoder Unit := do
  let bytes := text.toUTF8.toList
  match bytes.findIdx? (· == 0) with
  | some index => throw (.interiorNul index)
  | none =>
    writeBytes bytes
    writeUInt8 0

end Encoder

namespace Writer

/-- The bytes that an encoder leaves in an unbounded sink, its last byte filled up. -/
def collect (m : Encoder Unit) : Except CodecError (List UInt8) :=
  match (do m; Encoder.align : Encoder Unit) {} with
  | .ok _ w => .ok w.sink.toList
  | .error err _ => .error err

end Writer

namespace Encoder

/-- An error that was found outside of any sink. -/
def ofExcept {α : Type} : Except CodecError α → Encoder α
  | .ok a => pure a
  | .error err => throw err

end Encoder

end Swf
