/-!
# Words as bytes and as bit patterns

Multi-byte integers are stored with their low byte first. The number of binary digits of a value
decides the width of a bit field and is what overflow errors report.
-/

namespace Swf

/-- The number of binary digits of `n`; zero has none. -/
def bitLength (n : Nat) : Nat := if n = 0 then 0 else n.log2 + 1

/-- A 16-bit word, low byte first. -/
def bytesOfUInt16 (v : UInt16) : List UInt8 := [v.toUInt8, (v >>> 8).toUInt8]

/-- A 32-bit word, low byte first. -/
def bytesOfUInt32 (v : UInt32) : List UInt8 :=
  [v.toUInt8, (v >>> 8).toUInt8, (v >>> 16).toUInt8, (v >>> 24).toUInt8]

/-- The value of a byte string, low byte first. -/
def littleEndian : List UInt8 → Nat
  | [] => 0
  | b :: bs => b.toNat + 256 * littleEndian bs

/-- The low `bits` bits of an integer, as they stand in two's complement. -/
def twosComplement (bits : Nat) (v : Int) : UInt32 :=
  UInt32.ofNat (v % (Nat.pow 2 bits : Nat)).toNat

/-- The integer that a field of `bits` bits holds in two's complement: the top bit counts
negatively. A field of no bits holds zero. -/
def signExtend (bits : Nat) (raw : UInt32) : Int32 :=
  if raw.toNat < Nat.pow 2 (bits - 1) then Int32.ofNat raw.toNat
  else Int32.ofInt (raw.toNat - (Nat.pow 2 bits : Nat))

end Swf
