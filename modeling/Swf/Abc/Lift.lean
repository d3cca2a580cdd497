import Swf.Abc.Block
import Swf.Abc.Pool

/-!
# Lifting code to expressions

Straight-line code is run on a stack of expressions: a push puts a constant there, an operator
builds a tree of its operands, and what consumes a value without producing one becomes a statement.

The values that are left on the stack are computed after all statements. So a local may only be
written when no expression on the stack reads it; code that does so has no block.
-/

namespace Swf.Abc

/-- The block after one more operation; `index` is the position of the operation in its code. -/
def Block.step (pool : Pool) (index : Nat) (b : Block) (op : Op) : Except AbcError Block :=
  match op, b.stack with
  | .nop, _ | .label, _ => .ok b
  | .branch .., _ => .error (.unsupportedOp op index)
  | .push value, stack => .ok { b with stack := .constant value.constant :: stack }
  | .pushPooled kind entry, stack => do
    return { b with stack := .constant (← pool.constant kind entry) :: stack }
  | .pop, top :: stack => .ok (append { b with stack } (.discard top))
  | .dup, top :: stack => .ok { b with stack := top :: top :: stack }
  | .swap, top :: below :: stack => .ok { b with stack := below :: top :: stack }
  | .getLocal i, stack => .ok { b with stack := .getLocal i .any :: stack }
  | .setLocal i, top :: stack =>
    if stack.any (·.readsLocal i) then .error (.unsupportedOp op index)
    else .ok (append { b with stack } (.setLocal i top))
  | .convert conversion, top :: stack => .ok { b with stack := .convert top conversion :: stack }
  | .unary op, top :: stack => .ok { b with stack := .unary op top :: stack }
  | .binary op, rhs :: lhs :: stack => .ok { b with stack := .ofBinary op lhs rhs :: stack }
  | .returnVoid, _ => .ok (append { b with stack := [] } (.exit none))
  | .returnValue, top :: _ => .ok (append { b with stack := [] } (.exit (some top)))
  | _, _ => .error (.stackUnderflow op index)

/-- The block after the operations up to the first return; those behind it are left out. -/
def Block.run (pool : Pool) (index : Nat) (b : Block) : List Op → Except AbcError Block
  | [] => .ok b
  | op :: ops => do
    let b ← b.step pool index op
    if op.isReturn then return b else b.run pool (index + 1) ops

/-- The block that code computes. Errors name the position of an operation in the code. -/
def lift (pool : Pool) (code : List Op) : Except AbcError Block := Block.run pool 0 {} code

end Swf.Abc
