import Swf.Reader
import Swf.Writer

/-!
# Rectangles

A rectangle is stored as a five-bit field width, then its four bounds as signed bit fields of that
width, and zeros up to the next byte. The width is not part of the value: it is derived from the
bounds.
-/

namespace Swf

/-- A rectangle in twentieths of a pixel. -/
structure Rect where
  minX : Int32 := 0
  maxX : Int32 := 0
  minY : Int32 := 0
  maxY : Int32 := 0
deriving DecidableEq, Repr

namespace Rect

/-- Width of the field that holds the width of the bounds. -/
def widthBits : Nat := 5

/-- The widest field that the width field can describe. -/
def maxFieldBits : Nat := Nat.pow 2 widthBits - 1

/-- The bits that a bound needs: those of its magnitude and one for the sign. The rule is the same
for both signs, so the negative of a power of two gets one bit more than two's complement
needs. -/
def countBits (v : Int32) : Nat := if v = 0 then 0 else bitLength v.toInt.natAbs + 1

/-- The field width that all four bounds share. -/
def numberOfBits (r : Rect) : Nat :=
  max (max (countBits r.minX) (countBits r.maxX)) (max (countBits r.minY) (countBits r.maxY))

/-- The encoded size in bytes, padding included. -/
def encodedLength (r : Rect) : Nat := (widthBits + 4 * r.numberOfBits + 7) / 8

/-- The horizontal extent. -/
def width (r : Rect) : Int := r.maxX.toInt - r.minX.toInt

/-- The vertical extent. -/
def height (r : Rect) : Int := r.maxY.toInt - r.minY.toInt

/-- The bounds as the text listing shows them. -/
def display (r : Rect) : String :=
  s!"[{r.minX.toInt}, {r.maxX.toInt}] x [{r.minY.toInt}, {r.maxY.toInt}]"

/-- Reads a rectangle; the reader is at a byte boundary afterwards. -/
def read : Decoder Rect := do
  let bits := (← Decoder.readUnsigned widthBits).toNat
  let minX ← Decoder.readSigned bits
  let maxX ← Decoder.readSigned bits
  let minY ← Decoder.readSigned bits
  let maxY ← Decoder.readSigned bits
  Decoder.align
  return { minX, maxX, minY, maxY }

/-- Writes a rectangle; the writer is at a byte boundary afterwards. A bound that needs more bits
than the width field can describe is refused. -/
def write (r : Rect) : Encoder Unit := do
  let bits := r.numberOfBits
  if bits > maxFieldBits then throw (.rangeOverflow .rectBound bits maxFieldBits)
  Encoder.writeUnsigned widthBits (UInt32.ofNat bits)
  Encoder.writeSigned bits r.minX
  Encoder.writeSigned bits r.maxX
  Encoder.writeSigned bits r.minY
  Encoder.writeSigned bits r.maxY
  Encoder.align

end Rect

end Swf
