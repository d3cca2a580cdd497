import Swf.Abc.Op
import Swf.Text.Hexadecimal

/-!
# Errors of the bytecode layer

One constructor per cause; the wording lives in `AbcError.message` alone.
-/

namespace Swf.Abc

/-- Why bytecode could not be decoded, lifted or emitted. -/
inductive AbcError where
  /-- No conversion leads from one type to the other. -/
  | typeMismatch (source target : Ty)
  /-- An operation needs more values than the stack holds; `index` counts operations. -/
  | stackUnderflow (op : Op) (index : Nat)
  /-- An operation has no place in straight-line code; `index` counts operations. -/
  | unsupportedOp (op : Op) (index : Nat)
  /-- A byte is no opcode; `offset` counts bytes of the code. -/
  | unknownOpcode (opcode : UInt8) (offset : Nat)
  /-- The code ends where an operand goes on. -/
  | truncated (offset : Nat)
  /-- The constant pool has no such entry. -/
  | missingConstant (kind : PoolKind) (index : UInt32)
  /-- A method has too few locals. -/
  | localOutOfRange (index localCount : UInt32)
deriving DecidableEq, Repr

/-- The wording of an error. -/
def AbcError.message : AbcError → String
  | typeMismatch source target => s!"can not convert from {source.name} to {target.name}"
  | stackUnderflow op index => s!"stack underflow at {op.name} (instruction {index})"
  | unsupportedOp op index => s!"{op.name} is not supported here (instruction {index})"
  | unknownOpcode opcode offset => s!"unknown opcode 0x{Text.hexByte opcode} at byte {offset}"
  | truncated offset => s!"code ends inside an operand at byte {offset}"
  | missingConstant kind index => s!"no {kind.name} constant at index {index.toNat}"
  | localOutOfRange index localCount =>
    s!"local {index.toNat} out of range: method has {localCount.toNat} locals"

end Swf.Abc
