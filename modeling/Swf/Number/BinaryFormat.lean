/-!
# Binary floating-point formats

A format has a number of significant binary digits and a width of the exponent field. Its finite
values are `digits * 2 ^ scale` with a sign; two formats are used, of 64 and of 32 bits.

`BinaryFormat.round` is the one place where a number is rounded: it takes any fraction to the
nearest value of a format, a tie to the one whose digits are even. Arithmetic is done exactly on
fractions and rounded once.
-/

namespace Swf

/-- A binary floating-point format. -/
structure BinaryFormat where
  /-- Significant digits, the leading one included. -/
  precision : Nat
  /-- Width of the exponent field. -/
  exponentBits : Nat
deriving DecidableEq, Repr

/-- The 64-bit format. -/
def binary64 : BinaryFormat := { precision := 53, exponentBits := 11 }

/-- The 32-bit format. -/
def binary32 : BinaryFormat := { precision := 24, exponentBits := 8 }

/-- What a word of a format stands for. -/
inductive BinaryValue where
  | nan
  | infinity (negative : Bool)
  /-- `digits * 2 ^ scale`, negated if `negative`; zero has both signs. -/
  | finite (negative : Bool) (digits : Nat) (scale : Int)
deriving DecidableEq, Repr

/-- The integer nearest to `num / den`, a tie to the even one. -/
def roundDiv (num den : Nat) : Nat :=
  let quotient := num / den
  let rest := num % den
  if 2 * rest < den then quotient
  else if 2 * rest > den then quotient + 1
  else quotient + quotient % 2

/-- A fraction times a power of two, as a fraction. -/
def scaled (num den : Nat) (power : Int) : Nat × Nat :=
  if power < 0 then (num, den * Nat.pow 2 power.natAbs)
  else (num * Nat.pow 2 power.natAbs, den)

namespace BinaryFormat

/-- The exponent field of infinities and of values that are not numbers. -/
def topExponent (f : BinaryFormat) : Nat := Nat.pow 2 f.exponentBits - 1

/-- The number of values from one power of two to the next. -/
def binade (f : BinaryFormat) : Nat := Nat.pow 2 (f.precision - 1)

/-- What the sign bit counts in a word. -/
def signPlace (f : BinaryFormat) : Nat := f.binade * Nat.pow 2 f.exponentBits

/-- The scale of the smallest values. -/
def minScale (f : BinaryFormat) : Int := 3 - (Nat.pow 2 (f.exponentBits - 1) : Nat) - f.precision

/-- The scale of the largest values. -/
def maxScale (f : BinaryFormat) : Int := (Nat.pow 2 (f.exponentBits - 1) : Nat) - f.precision

/-- The value of a word. -/
def decode (f : BinaryFormat) (word : Nat) : BinaryValue :=
  let negative := word / f.signPlace % 2 == 1
  let exponent := word / f.binade % Nat.pow 2 f.exponentBits
  let fraction := word % f.binade
  if exponent = f.topExponent then if fraction = 0 then .infinity negative else .nan
  else if exponent = 0 then .finite negative fraction f.minScale
  else .finite negative (f.binade + fraction) (f.minScale + (exponent - 1))

/-- The word of a value. Finite values have their digits normalised: fewer than `2 ^ precision`, and
at least half as many unless the scale is the smallest one. -/
def encode (f : BinaryFormat) : BinaryValue → Nat
  | .nan => f.topExponent * f.binade + f.binade / 2
  | .infinity negative =>
    negative.toNat * f.signPlace + f.topExponent * f.binade
  | .finite negative digits scale =>
    negative.toNat * f.signPlace +
      if digits < f.binade then digits
      else (scale - f.minScale + 1).toNat * f.binade + (digits - f.binade)

/-- The power of two at or below `num / den`. -/
def floorLog (num den : Nat) : Int :=
  let guess : Int := num.log2 - den.log2
  let (n, d) := scaled num den (-guess)
  -- The number of digits tells the power up to one.
  if n < d then guess - 1 else guess

/-- The value of a format that is nearest to `num / den`, a tie to the one with even digits. What
lies beyond the largest value by half a step or more is infinite. -/
def round (f : BinaryFormat) (negative : Bool) (num den : Nat) : BinaryValue :=
  if num = 0 then .finite negative 0 f.minScale
  else
    let scale := max f.minScale (floorLog num den - (f.precision - 1 : Nat))
    let (n, d) := scaled num den (-scale)
    let digits := roundDiv n d
    -- Rounding up may give one digit more; then all digits but the first are zero.
    let (digits, scale) :=
      if digits = Nat.pow 2 f.precision then (f.binade, scale + 1) else (digits, scale)
    if scale > f.maxScale then .infinity negative else .finite negative digits scale

end BinaryFormat

end Swf
