import Swf.Abc.Block
import Swf.Abc.Pool

/-!
# Emitting code

An expression becomes the operations that leave its value on top of the stack, operands first. Its
literals go into the constant pool as they come up; they stay there when the expression turns out
to read a local that the method does not have.
-/

namespace Swf.Abc

/-- A computation that may add constants to the pool and may fail; the pool outlives the failure. -/
abbrev Emitter (α : Type) := EStateM AbcError Pool α

/-- The operation that pushes an integer: the literal stands in the shortest place that holds it. -/
def emitInt (value : Int32) : Emitter Op :=
  if -128 ≤ value.toInt ∧ value.toInt < 128 then return .push (.byte value.toInt8)
  else if -32768 ≤ value.toInt ∧ value.toInt < 32768 then return .push (.short value.toInt16)
  else .pushPooled .int <$> modifyGet (Pool.internInt value)

/-- The operation that pushes a literal. -/
def Constant.emit : Constant → Emitter Op
  | .string value => .pushPooled .string <$> modifyGet (Pool.internString value)
  | .int value => emitInt value
  | .uint value => .pushPooled .uint <$> modifyGet (Pool.internUInt value)
  | .number value =>
    if value.isNaN then return .push .nan
    else .pushPooled .double <$> modifyGet (Pool.internDouble value)
  | .boolean true => return .push .true
  | .boolean false => return .push .false
  | .null => return .push .null
  | .undefined => return .push .undefined

/-- Fails unless a method with `localCount` locals has the local. -/
def checkLocal (localCount index : UInt32) : Emitter Unit :=
  if index < localCount then return else throw (.localOutOfRange index localCount)

/-- The operations that push the value of an expression, in a method with `localCount` locals. -/
def Expr.emit (localCount : UInt32) : Expr → Emitter (List Op)
  | .constant value => do return [← value.emit]
  | .getLocal index _ => do
    checkLocal localCount index
    return [.getLocal index]
  | .unary op operand => do return (← operand.emit localCount) ++ [.unary op]
  | .binary op lhs rhs _ => do
    let left ← lhs.emit localCount
    let right ← rhs.emit localCount
    return left ++ right ++ [.binary op]
  | .convert operand conversion => do
    return (← operand.emit localCount) ++ [.convert conversion]

/-- The operations of a statement. -/
def Statement.emit (localCount : UInt32) : Statement → Emitter (List Op)
  | .setLocal index value => do
    checkLocal localCount index
    return (← value.emit localCount) ++ [.setLocal index]
  | .discard value => do return (← value.emit localCount) ++ [.pop]
  | .exit none => return [.returnVoid]
  | .exit (some value) => do return (← value.emit localCount) ++ [.returnValue]

/-- The operations of the statements in order, and of what is left on the stack, from the bottom
up. -/
def Block.emit (localCount : UInt32) (b : Block) : Emitter (List Op) := do
  let statements ← b.statements.mapM (·.emit localCount)
  let values ← b.stack.reverse.mapM (·.emit localCount)
  return statements.flatten ++ values.flatten

end Swf.Abc
