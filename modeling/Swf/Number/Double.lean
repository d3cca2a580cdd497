import Swf.Number.BinaryFormat

/-!
# Double-precision numbers

A double is its 64-bit word. Arithmetic is exact on the values of the words and rounded once, so two
equal computations give equal words; all values that are not numbers have one word.
-/

namespace Swf

/-- A double-precision number. -/
structure Double where
  bits : UInt64
deriving DecidableEq, Repr

namespace Double

/-- What a double stands for. -/
def value (d : Double) : BinaryValue := binary64.decode d.bits.toNat

/-- The double of a value that is normalised. -/
def ofValue (v : BinaryValue) : Double := ⟨UInt64.ofNat (binary64.encode v)⟩

/-- The double that is not a number. -/
def nan : Double := ofValue .nan

/-- The double nearest to a fraction. -/
def ofRatio (negative : Bool) (num den : Nat) : Double := ofValue (binary64.round negative num den)

/-- The double nearest to an integer; zero is positive. -/
def ofInt (n : Int) : Double := ofRatio (n < 0) n.natAbs 1

/-- The double nearest to `n * 2 ^ scale`; zero has the sign `negative`. -/
def ofScaled (negative : Bool) (n : Int) (scale : Int) : Double :=
  let (num, den) := scaled n.natAbs 1 scale
  ofRatio (if n = 0 then negative else n < 0) num den

def isNaN (d : Double) : Bool := d.value == .nan

/-- An integer with a sign. -/
def signed (negative : Bool) (n : Nat) : Int := if negative then -n else n

/-- A value times `2 ^ -scale`, which is an integer for a small enough scale. -/
def atScale (negative : Bool) (digits : Nat) (own scale : Int) : Int :=
  signed negative (digits * Nat.pow 2 (own - scale).toNat)

/-! ### Arithmetic -/

def neg (d : Double) : Double :=
  match d.value with
  | .nan => nan
  | .infinity s => ofValue (.infinity !s)
  | .finite s digits scale => ofValue (.finite (!s) digits scale)

/-- A sum that is zero is positive, unless both parts are negative zeros. -/
def add (a b : Double) : Double :=
  match a.value, b.value with
  | .nan, _ | _, .nan => nan
  | .infinity s, .infinity t => if s = t then a else nan
  | .infinity _, _ => a
  | _, .infinity _ => b
  | .finite s m p, .finite t n q =>
    let scale := min p q
    ofScaled (s && t) (atScale s m p scale + atScale t n q scale) scale

def sub (a b : Double) : Double := a.add b.neg

def mul (a b : Double) : Double :=
  match a.value, b.value with
  | .nan, _ | _, .nan => nan
  | .infinity s, .infinity t => ofValue (.infinity (s != t))
  | .infinity s, .finite t n _ => if n = 0 then nan else ofValue (.infinity (s != t))
  | .finite s m _, .infinity t => if m = 0 then nan else ofValue (.infinity (s != t))
  | .finite s m p, .finite t n q => ofScaled (s != t) (signed (s != t) (m * n)) (p + q)

def div (a b : Double) : Double :=
  match a.value, b.value with
  | .nan, _ | _, .nan => nan
  | .infinity _, .infinity _ => nan
  | .infinity s, .finite t _ _ => ofValue (.infinity (s != t))
  | .finite s _ _, .infinity t => ofRatio (s != t) 0 1
  | .finite s m p, .finite t n q =>
    if n = 0 then if m = 0 then nan else ofValue (.infinity (s != t))
    else
      let (num, den) := scaled m n (p - q)
      ofRatio (s != t) num den

/-- The remainder of a division whose quotient is cut off; it has the sign of the dividend. -/
def rem (a b : Double) : Double :=
  match a.value, b.value with
  | .nan, _ | _, .nan => nan
  | .infinity _, _ => nan
  | .finite .., .infinity _ => a
  | .finite s m p, .finite _ n q =>
    if n = 0 then nan
    else
      let scale := min p q
      let rest := (atScale false m p scale).tmod (atScale false n q scale)
      ofScaled s (signed s rest.natAbs) scale

/-! ### Comparison -/

/-- The order of two doubles; one that is not a number has no order. Zeros are equal. -/
def compare? (a b : Double) : Option Ordering :=
  match a.value, b.value with
  | .nan, _ | _, .nan => none
  | .infinity s, .infinity t => some (compare t.toNat s.toNat)
  | .infinity s, .finite .. => some (if s then .lt else .gt)
  | .finite .., .infinity t => some (if t then .gt else .lt)
  | .finite s m p, .finite t n q =>
    let scale := min p q
    some (compare (atScale s m p scale) (atScale t n q scale))

def isZero (d : Double) : Bool :=
  match d.value with
  | .finite _ digits _ => digits == 0
  | _ => false

/-! ### Integers -/

/-- The integer part, cut off toward zero; what is not finite has none. -/
def truncate? (d : Double) : Option Int :=
  match d.value with
  | .finite s digits scale =>
    let (num, den) := scaled digits 1 scale
    some (signed s (num / den))
  | _ => none

/-- The integer that a double is equal to, if there is one. -/
def integer? (d : Double) : Option Int :=
  match d.value with
  | .finite s digits scale =>
    let (num, den) := scaled digits 1 scale
    if num % den = 0 then some (signed s (num / den)) else none
  | _ => none

/-- The integer part modulo `2 ^ 32`; zero for what is not finite. -/
def toUInt32 (d : Double) : UInt32 :=
  match d.truncate? with
  | some n => UInt32.ofNat (n % 0x100000000).toNat
  | none => 0

/-- The integer part modulo `2 ^ 32`, from `-2 ^ 31` up; zero for what is not finite. -/
def toInt32 (d : Double) : Int32 := d.toUInt32.toInt32

/-! ### The 32-bit format -/

/-- The word of the 32-bit number nearest to a double. -/
def toBinary32 (d : Double) : UInt32 :=
  UInt32.ofNat <| binary32.encode <|
    match d.value with
    | .finite s digits scale =>
      let (num, den) := scaled digits 1 scale
      binary32.round s num den
    | v => v

end Double

end Swf
