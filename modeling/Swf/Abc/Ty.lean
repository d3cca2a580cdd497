/-!
# Static types

The types of expressions form a flat, closed set. There is no subtyping: two types are the same
exactly if they are equal, and to get from one to another takes an explicit conversion.
-/

namespace Swf.Abc

/-- A static type. -/
inductive Ty where
  /-- The untyped `*`. -/
  | any
  /-- The type of `undefined`. -/
  | void
  | null
  | boolean
  | int
  | uint
  | number
  | string
  | object
deriving DecidableEq, Repr

namespace Ty

/-- All types. -/
def all : List Ty := [.any, .void, .null, .boolean, .int, .uint, .number, .string, .object]

/-- The name of a type as it is written in a type annotation. -/
def name : Ty → String
  | .any => "*"
  | .void => "void"
  | .null => "null"
  | .boolean => "Boolean"
  | .int => "int"
  | .uint => "uint"
  | .number => "Number"
  | .string => "String"
  | .object => "Object"

/-- The type with a name, if there is one. -/
def ofName? (name : String) : Option Ty := all.find? (·.name == name)

/-- Whether the values of a type are numbers. -/
def isNumeric : Ty → Bool
  | .int | .uint | .number => true
  | _ => false

/-- A type is found under its own name. -/
@[simp] theorem ofName?_name (ty : Ty) : ofName? ty.name = some ty := by
  cases ty <;> rfl

end Ty

end Swf.Abc
