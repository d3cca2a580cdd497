import Swf.Abc.Ty

/-!
# Operators and conversions

Each stands for one opcode. A unary operator and a conversion fix the type of their result; of the
binary operators, only `add` looks at the types of its operands.
-/

namespace Swf.Abc

/-- An operation on one operand. -/
inductive UnaryOp where
  | negate
  | increment
  | decrement
  | typeOf
  | not
  | bitNot
deriving DecidableEq, Repr

namespace UnaryOp

/-- All unary operators. -/
def all : List UnaryOp := [.negate, .increment, .decrement, .typeOf, .not, .bitNot]

def opcode : UnaryOp → UInt8
  | .negate => 0x90
  | .increment => 0x91
  | .decrement => 0x93
  | .typeOf => 0x95
  | .not => 0x96
  | .bitNot => 0x97

def name : UnaryOp → String
  | .negate => "negate"
  | .increment => "increment"
  | .decrement => "decrement"
  | .typeOf => "typeof"
  | .not => "not"
  | .bitNot => "bitnot"

/-- The type of the result. -/
def resultTy : UnaryOp → Ty
  | .negate | .increment | .decrement => .number
  | .typeOf => .string
  | .not => .boolean
  | .bitNot => .int

end UnaryOp

/-- An operation on two operands, the left one pushed first. -/
inductive BinaryOp where
  | add
  | subtract
  | multiply
  | divide
  | modulo
  | shiftLeft
  | shiftRight
  | shiftRightUnsigned
  | bitAnd
  | bitOr
  | bitXor
  | equals
  | strictEquals
  | lessThan
  | lessEquals
  | greaterThan
  | greaterEquals
deriving DecidableEq, Repr

namespace BinaryOp

/-- All binary operators, in the order of their opcodes. -/
def all : List BinaryOp :=
  [.add, .subtract, .multiply, .divide, .modulo, .shiftLeft, .shiftRight, .shiftRightUnsigned,
    .bitAnd, .bitOr, .bitXor, .equals, .strictEquals, .lessThan, .lessEquals, .greaterThan,
    .greaterEquals]

/-- The opcodes follow each other without a gap. -/
def opcode : BinaryOp → UInt8
  | .add => 0xa0
  | .subtract => 0xa1
  | .multiply => 0xa2
  | .divide => 0xa3
  | .modulo => 0xa4
  | .shiftLeft => 0xa5
  | .shiftRight => 0xa6
  | .shiftRightUnsigned => 0xa7
  | .bitAnd => 0xa8
  | .bitOr => 0xa9
  | .bitXor => 0xaa
  | .equals => 0xab
  | .strictEquals => 0xac
  | .lessThan => 0xad
  | .lessEquals => 0xae
  | .greaterThan => 0xaf
  | .greaterEquals => 0xb0

def name : BinaryOp → String
  | .add => "add"
  | .subtract => "subtract"
  | .multiply => "multiply"
  | .divide => "divide"
  | .modulo => "modulo"
  | .shiftLeft => "lshift"
  | .shiftRight => "rshift"
  | .shiftRightUnsigned => "urshift"
  | .bitAnd => "bitand"
  | .bitOr => "bitor"
  | .bitXor => "bitxor"
  | .equals => "equals"
  | .strictEquals => "strictequals"
  | .lessThan => "lessthan"
  | .lessEquals => "lessequals"
  | .greaterThan => "greaterthan"
  | .greaterEquals => "greaterequals"

def isComparison : BinaryOp → Bool
  | .equals | .strictEquals | .lessThan | .lessEquals | .greaterThan | .greaterEquals => true
  | _ => false

/-- The type of a sum: a string if either operand is one, a number if both are numbers, and
otherwise unknown before the program runs. -/
def sumTy (lhs rhs : Ty) : Ty :=
  if lhs = .string ∨ rhs = .string then .string
  else if lhs.isNumeric && rhs.isNumeric then .number
  else .any

/-- The type of the result for operands of these types. -/
def resultTy (op : BinaryOp) (lhs rhs : Ty) : Ty :=
  match op with
  | .add => sumTy lhs rhs
  | .subtract | .multiply | .divide | .modulo => .number
  | .shiftLeft | .shiftRight | .bitAnd | .bitOr | .bitXor => .int
  | .shiftRightUnsigned => .uint
  | .equals | .strictEquals | .lessThan | .lessEquals | .greaterThan | .greaterEquals => .boolean

end BinaryOp

/-- An explicit change of type. -/
inductive Conversion where
  | toString
  | toInt
  | toUInt
  | toNumber
  | toBoolean
  | toObject
  | toAny
  /-- To a string, but `null` and `undefined` become `null`. -/
  | coerceString
deriving DecidableEq, Repr

namespace Conversion

/-- All conversions, in the order of their opcodes. -/
def all : List Conversion :=
  [.toString, .toInt, .toUInt, .toNumber, .toBoolean, .toObject, .toAny, .coerceString]

def opcode : Conversion → UInt8
  | .toString => 0x70
  | .toInt => 0x73
  | .toUInt => 0x74
  | .toNumber => 0x75
  | .toBoolean => 0x76
  | .toObject => 0x77
  | .toAny => 0x82
  | .coerceString => 0x85

def name : Conversion → String
  | .toString => "convert_s"
  | .toInt => "convert_i"
  | .toUInt => "convert_u"
  | .toNumber => "convert_d"
  | .toBoolean => "convert_b"
  | .toObject => "convert_o"
  | .toAny => "coerce_a"
  | .coerceString => "coerce_s"

/-- The type of what was converted. -/
def target : Conversion → Ty
  | .toString | .coerceString => .string
  | .toInt => .int
  | .toUInt => .uint
  | .toNumber => .number
  | .toBoolean => .boolean
  | .toObject => .object
  | .toAny => .any

end Conversion

/-- The conversion of any value to a type. Nothing converts to `null` or `void`. -/
def Ty.conversion? : Ty → Option Conversion
  | .any => some .toAny
  | .void | .null => none
  | .boolean => some .toBoolean
  | .int => some .toInt
  | .uint => some .toUInt
  | .number => some .toNumber
  | .string => some .toString
  | .object => some .toObject

/-- The conversion to a type leads to that type. -/
theorem Ty.target_of_conversion? {ty : Ty} {conversion : Conversion}
    (h : ty.conversion? = some conversion) : conversion.target = ty := by
  cases ty <;> simp [conversion?] at h <;> subst h <;> rfl

end Swf.Abc
