import Swf.Number.Double

/-!
# Decimal numerals

A numeral is an optional sign, digits with an optional point among, before or behind them, and an
optional exponent. It is read exactly and rounded once.
-/

namespace Swf

/-- The number `digits * 10 ^ exponent`, negated if `negative`. -/
structure Numeral where
  negative : Bool
  digits : Nat
  exponent : Int
deriving DecidableEq, Repr

namespace Numeral

/-- The number that decimal digits stand for. -/
def ofDigits (cs : List Char) : Nat := cs.foldl (fun n c => 10 * n + (c.toNat - '0'.toNat)) 0

/-- Whether there is a minus sign in front, and the text behind the sign. -/
def takeSign : List Char → Bool × List Char
  | '-' :: rest => (true, rest)
  | '+' :: rest => (false, rest)
  | rest => (false, rest)

/-- The digits in front, and the text behind them. -/
def takeDigits (cs : List Char) : List Char × List Char :=
  (cs.takeWhile Char.isDigit, cs.dropWhile Char.isDigit)

/-- The digits behind a point in front, and the text behind those. -/
def takeFraction : List Char → List Char × List Char
  | '.' :: rest => takeDigits rest
  | rest => ([], rest)

/-- A whole text as an exponent: nothing, or the mark, a sign and at least one digit. -/
def exponent? : List Char → Option Int
  | [] => some 0
  | mark :: rest =>
    let (negative, rest) := takeSign rest
    let (digits, rest) := takeDigits rest
    if (mark = 'e' ∨ mark = 'E') ∧ digits ≠ [] ∧ rest = [] then
      some (Double.signed negative (ofDigits digits))
    else none

/-- A whole text as a numeral. -/
def parse? (cs : List Char) : Option Numeral :=
  let (negative, rest) := takeSign cs
  let (whole, rest) := takeDigits rest
  let (fraction, rest) := takeFraction rest
  if whole ++ fraction = [] then none
  else
    (exponent? rest).map fun exponent =>
      { negative, digits := ofDigits (whole ++ fraction), exponent := exponent - fraction.length }

/-- The number of decimal digits of the digits. -/
def width (n : Numeral) : Nat := (Nat.toDigits 10 n.digits).length

/-- The double nearest to a numeral. A numeral of at least `10 ^ 309` is infinite and one below
`10 ^ -324` is zero whatever its digits, so that no large power is computed for those. -/
def toDouble (n : Numeral) : Double :=
  if n.digits = 0 ∨ n.width + n.exponent < -323 then Double.ofRatio n.negative 0 1
  else if 309 < n.width + n.exponent then Double.ofValue (.infinity n.negative)
  else
    Double.ofRatio n.negative (n.digits * Nat.pow 10 n.exponent.toNat)
      (Nat.pow 10 (-n.exponent).toNat)

end Numeral

end Swf
