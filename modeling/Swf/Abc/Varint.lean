import Swf.Abc.Cursor

/-!
# Variable-length integers

Seven bits per byte, the low ones first, with the top bit set on every byte but the last. At most
five bytes are read, whatever the fifth one says.
-/

namespace Swf.Abc

namespace Varint

/-- The bytes of a number, as few as possible. -/
def bytes (n : Nat) : List UInt8 :=
  if n < 128 then [UInt8.ofNat n] else UInt8.ofNat (n % 128 + 128) :: bytes (n / 128)
termination_by n
decreasing_by omega

/-- The number whose bytes come next, of which there are at most this many. -/
def readNat : Nat → CodeReader Nat
  | 0 => pure 0
  | bound + 1 => do
    let b ← CodeReader.takeByte
    if b.toNat < 128 then return b.toNat
    else return b.toNat - 128 + 128 * (← readNat bound)

/-- The bytes of a 32-bit number. -/
def encode (n : UInt32) : List UInt8 := bytes n.toNat

/-- A 32-bit number; bits beyond those are lost. -/
def read : CodeReader UInt32 := UInt32.ofNat <$> readNat 5

end Varint

namespace CodeReader

theorem Forward.readNat (bound : Nat) : Forward (Varint.readNat bound) := by
  induction bound with
  | zero => exact .pure _
  | succ bound ih =>
    refine Forward.takeByte.bind fun b => ?_
    split
    · exact .pure _
    · exact ih.bind fun _ => .pure _

theorem Forward.varint : Forward Varint.read := (Forward.readNat 5).bind fun _ => .pure _

end CodeReader

end Swf.Abc
