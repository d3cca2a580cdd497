import Swf.Abc.Constant
import Swf.Abc.Operator
import Swf.Number.Numeral
import Swf.Text.Blank

/-!
# Operators on constants

What operators and conversions do to literals, where that is exact. A string is taken for a number
only if it is blank or a decimal numeral, and a number is written as a string only if it is integral
or not finite; all other cases have no result here.
-/

namespace Swf.Abc

namespace Constant

/-- The number that a string stands for: zero if it is blank, and else its numeral. -/
def numberOfString? (text : String) : Option Double :=
  match Text.trim text.toList with
  | [] => some (Double.ofInt 0)
  | cs => (Numeral.parse? cs).map Numeral.toDouble

/-- A literal as a number. -/
def toNumber? : Constant → Option Double
  | .string value => numberOfString? value
  | .int value => some (Double.ofInt value.toInt)
  | .uint value => some (Double.ofInt value.toNat)
  | .number value => some value
  | .boolean value => some (Double.ofInt value.toInt)
  | .null => some (Double.ofInt 0)
  | .undefined => some Double.nan

/-- The largest integer up to which all integers are doubles. -/
def maxSafeInteger : Nat := Nat.pow 2 53 - 1

/-- A number as a string. Zeros of both signs are written alike. -/
def stringOfNumber? (value : Double) : Option String :=
  match value.value with
  | .nan => some "NaN"
  | .infinity negative => some (if negative then "-Infinity" else "Infinity")
  | .finite .. =>
    match value.integer? with
    | some n => if n.natAbs ≤ maxSafeInteger then some (toString n) else none
    | none => none

/-- A literal as a string. -/
def toString? : Constant → Option String
  | .string value => some value
  | .int value => some (toString value.toInt)
  | .uint value => some (toString value.toNat)
  | .number value => stringOfNumber? value
  | .boolean value => some (toString value)
  | .null => some "null"
  | .undefined => some "undefined"

/-- A literal as a truth value. -/
def toBoolean : Constant → Bool
  | .string value => !value.isEmpty
  | .int value => value != 0
  | .uint value => value != 0
  | .number value => !(value.isZero || value.isNaN)
  | .boolean value => value
  | .null | .undefined => false

/-- What the type of a literal is called at run time. -/
def typeName : Constant → String
  | .string _ => "string"
  | .int _ | .uint _ | .number _ => "number"
  | .boolean _ => "boolean"
  | .null => "object"
  | .undefined => "undefined"

/-- The numbers of two literals. -/
def numbers? (lhs rhs : Constant) : Option (Double × Double) := do
  return (← lhs.toNumber?, ← rhs.toNumber?)

/-- Whether two literals are equal, for numbers and for literals of one type. Loosely, `null` and
`undefined` are equal too. -/
def equals? (strict : Bool) (lhs rhs : Constant) : Option Bool :=
  if lhs.ty.isNumeric && rhs.ty.isNumeric then do
    let (a, b) ← numbers? lhs rhs
    return a.compare? b == some .eq
  else
    match lhs, rhs with
    | .string a, .string b => some (a == b)
    | .boolean a, .boolean b => some (a == b)
    | .null, .null | .undefined, .undefined => some true
    | .null, .undefined | .undefined, .null => some (!strict)
    | _, _ => none

/-- Whether two numbers are in one of the orders that `holds` admits. Strings are not compared:
their order goes by the units of another encoding. -/
def ordered? (holds : Ordering → Bool) (lhs rhs : Constant) : Option Bool :=
  if lhs.ty.isNumeric && rhs.ty.isNumeric then do
    let (a, b) ← numbers? lhs rhs
    return (a.compare? b).any holds
  else none

end Constant

/-- What a unary operator makes of a literal. -/
def UnaryOp.eval? (op : UnaryOp) (operand : Constant) : Option Constant :=
  match op with
  | .negate => do return .number (← operand.toNumber?).neg
  | .increment => do return .number ((← operand.toNumber?).add (Double.ofInt 1))
  | .decrement => do return .number ((← operand.toNumber?).sub (Double.ofInt 1))
  | .typeOf => some (.string operand.typeName)
  | .not => some (.boolean !operand.toBoolean)
  | .bitNot => do return .int (~~~(← operand.toNumber?).toInt32)

namespace BinaryOp

/-- A number and a count of places to shift it by: the low five bits of the right operand. -/
def shift? (lhs rhs : Constant) : Option (Double × UInt32) := do
  let (a, b) ← Constant.numbers? lhs rhs
  return (a, b.toUInt32 &&& 31)

/-- Two numbers as 32-bit integers. -/
def integers? (lhs rhs : Constant) : Option (Int32 × Int32) := do
  let (a, b) ← Constant.numbers? lhs rhs
  return (a.toInt32, b.toInt32)

/-- A sum of the given type. -/
def sum? (ty : Ty) (lhs rhs : Constant) : Option Constant :=
  match ty with
  | .string => do return .string ((← lhs.toString?) ++ (← rhs.toString?))
  | .number => do
    let (a, b) ← Constant.numbers? lhs rhs
    return .number (a.add b)
  | _ => none

/-- What a binary operator of the given result type makes of two literals. -/
def eval? (op : BinaryOp) (ty : Ty) (lhs rhs : Constant) : Option Constant :=
  match op with
  | .add => sum? ty lhs rhs
  | .subtract => (Constant.numbers? lhs rhs).map fun (a, b) => .number (a.sub b)
  | .multiply => (Constant.numbers? lhs rhs).map fun (a, b) => .number (a.mul b)
  | .divide => (Constant.numbers? lhs rhs).map fun (a, b) => .number (a.div b)
  | .modulo => (Constant.numbers? lhs rhs).map fun (a, b) => .number (a.rem b)
  | .shiftLeft => (shift? lhs rhs).map fun (a, n) => .int (a.toInt32 <<< n.toInt32)
  | .shiftRight => (shift? lhs rhs).map fun (a, n) => .int (a.toInt32 >>> n.toInt32)
  | .shiftRightUnsigned => (shift? lhs rhs).map fun (a, n) => .uint (a.toUInt32 >>> n)
  | .bitAnd => (integers? lhs rhs).map fun (a, b) => .int (a &&& b)
  | .bitOr => (integers? lhs rhs).map fun (a, b) => .int (a ||| b)
  | .bitXor => (integers? lhs rhs).map fun (a, b) => .int (a ^^^ b)
  | .equals => (lhs.equals? false rhs).map .boolean
  | .strictEquals => (lhs.equals? true rhs).map .boolean
  | .lessThan => (lhs.ordered? (·.isLT) rhs).map .boolean
  | .lessEquals => (lhs.ordered? (·.isLE) rhs).map .boolean
  | .greaterThan => (lhs.ordered? (·.isGT) rhs).map .boolean
  | .greaterEquals => (lhs.ordered? (·.isGE) rhs).map .boolean

end BinaryOp

/-- What a conversion makes of a literal. Objects are no literals, and what has the type `*` is not
one either; nor is the `null` that a coercion to a string may give. -/
def Conversion.eval? (conversion : Conversion) (operand : Constant) : Option Constant :=
  match conversion with
  | .toString => operand.toString?.map .string
  | .coerceString =>
    match operand with
    | .null | .undefined => none
    | _ => operand.toString?.map .string
  | .toNumber => operand.toNumber?.map .number
  | .toInt => operand.toNumber?.map fun v => .int v.toInt32
  | .toUInt => operand.toNumber?.map fun v => .uint v.toUInt32
  | .toBoolean => some (.boolean operand.toBoolean)
  | .toObject | .toAny => none

end Swf.Abc
