/-!
# The checksum of a compressed stream

Two running sums modulo the largest prime below 2^16: one over the bytes, one over the sums.
-/

namespace Swf.Zlib

/-- The modulus of both sums. -/
def checksumModulus : Nat := 65521

/-- The two sums after one more byte. -/
def checksumStep (sums : Nat × Nat) (b : UInt8) : Nat × Nat :=
  let first := (sums.1 + b.toNat) % checksumModulus
  (first, (sums.2 + first) % checksumModulus)

/-- The checksum of some content, the sum of sums in its high half. -/
def checksum (content : List UInt8) : Nat :=
  let (first, second) := content.foldl checksumStep (1, 0)
  second * 0x10000 + first

end Swf.Zlib
