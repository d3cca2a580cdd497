import Swf.Number.BinaryFormat

/-!
# Decimal text of binary numbers

Two ways to write a binary number in decimal: with a fixed number of places, rounded once from the
exact value, and with the fewest digits that read back as the same number. In both a tie goes to
the even digit.
-/

namespace Swf

/-- Digits `n` with the last `places` of them behind the point. -/
def withPoint (n places : Nat) : String :=
  let whole := n / Nat.pow 10 places
  let fraction := toString (n % Nat.pow 10 places)
  if places = 0 then toString whole
  else
    let zeros := List.replicate (places - fraction.length) '0'
    toString whole ++ "." ++ String.ofList zeros ++ fraction

/-- A fraction with a fixed number of places. -/
def fixedPoint (num den places : Nat) : String :=
  withPoint (roundDiv (num * Nat.pow 10 places) den) places

namespace BinaryFormat

/-- Of the two neighbours of `num / den` on the grid `10 ^ -places`, those that read back as `v`,
the nearer one first. -/
def readsBack (f : BinaryFormat) (v : BinaryValue) (num den places : Nat) : Option Nat :=
  let below := num * Nat.pow 10 places / den
  let near := roundDiv (num * Nat.pow 10 places) den
  let far := if near = below then below + 1 else below
  [near, far].find? fun n => f.round false n (Nat.pow 10 places) == v

/-- The fewest places, up to a bound, that read back as `v`. -/
def fewestPlaces (f : BinaryFormat) (v : BinaryValue) (num den : Nat) : Nat → Nat → Nat × Nat
  | 0, places => (num * Nat.pow 10 places / den, places)
  | bound + 1, places =>
    match f.readsBack v num den places with
    | some n => (n, places)
    | none => fewestPlaces f v num den bound (places + 1)

/-- The value `num / den` of a format in positional notation, with the fewest places that read back
and at least one. -/
def shortest (f : BinaryFormat) (num den : Nat) : String :=
  let (n, places) := f.fewestPlaces (f.round false num den) num den (f.precision + den.log2) 0
  if places = 0 then withPoint n 0 ++ ".0" else withPoint n places

end BinaryFormat

end Swf
