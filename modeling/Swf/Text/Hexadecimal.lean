/-!
# Hexadecimal digits

Numbers in base sixteen, with lower-case letters.
-/

namespace Swf.Text

/-- A number in hexadecimal digits, without leading zeros. -/
def hexadecimal (n : Nat) : String := String.ofList (Nat.toDigits 16 n)

/-- A byte in two hexadecimal digits. -/
def hexByte (b : UInt8) : String :=
  String.ofList [Nat.digitChar (b.toNat / 16), Nat.digitChar (b.toNat % 16)]

end Swf.Text
