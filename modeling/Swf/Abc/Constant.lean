import Swf.Abc.Ty
import Swf.Number.Double

/-!
# Constants

Literals of a program, each with its static type.
-/

namespace Swf.Abc

/-- A literal. -/
inductive Constant where
  | string (value : String)
  | int (value : Int32)
  | uint (value : UInt32)
  | number (value : Double)
  | boolean (value : Bool)
  | null
  | undefined
deriving DecidableEq, Repr

/-- The type of a literal. -/
def Constant.ty : Constant → Ty
  | .string _ => .string
  | .int _ => .int
  | .uint _ => .uint
  | .number _ => .number
  | .boolean _ => .boolean
  | .null => .null
  | .undefined => .void

end Swf.Abc
