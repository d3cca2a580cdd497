import Swf.Abc.Constant
import Swf.Abc.Operator

/-!
# Operations of the stack machine

An operation pops its operands off a stack and pushes its results. Literals that do not fit into an
instruction stand in the constant pool of the file, one table per kind.
-/

namespace Swf.Abc

/-- The tables of the constant pool. -/
inductive PoolKind where
  | int
  | uint
  | double
  | string
deriving DecidableEq, Repr

/-- The name of a table in error messages. -/
def PoolKind.name : PoolKind → String
  | .int => "int"
  | .uint => "uint"
  | .double => "double"
  | .string => "string"

/-- A literal that is part of its instruction. -/
inductive Immediate where
  | null
  | undefined
  | true
  | false
  | nan
  | byte (value : Int8)
  | short (value : Int16)
deriving DecidableEq, Repr

namespace Immediate

/-- The literal that is pushed. -/
def constant : Immediate → Constant
  | .null => .null
  | .undefined => .undefined
  | .true => .boolean Bool.true
  | .false => .boolean Bool.false
  | .nan => .number Double.nan
  | .byte value => .int value.toInt32
  | .short value => .int value.toInt32

def name : Immediate → String
  | .null => "pushnull"
  | .undefined => "pushundefined"
  | .true => "pushtrue"
  | .false => "pushfalse"
  | .nan => "pushnan"
  | .byte _ => "pushbyte"
  | .short _ => "pushshort"

end Immediate

/-- When a branch is taken. -/
inductive BranchKind where
  | always
  | ifTrue
  | ifFalse
deriving DecidableEq, Repr

/-- An operation. -/
inductive Op where
  | nop
  | label
  /-- Continues `offset` bytes further on. -/
  | branch (kind : BranchKind) (offset : Int32)
  | push (value : Immediate)
  | pushPooled (kind : PoolKind) (index : UInt32)
  | pop
  | dup
  | swap
  | returnVoid
  | returnValue
  | getLocal (index : UInt32)
  | setLocal (index : UInt32)
  | convert (conversion : Conversion)
  | unary (op : UnaryOp)
  | binary (op : BinaryOp)
deriving DecidableEq, Repr

namespace Op

def name : Op → String
  | .nop => "nop"
  | .label => "label"
  | .branch .always _ => "jump"
  | .branch .ifTrue _ => "iftrue"
  | .branch .ifFalse _ => "iffalse"
  | .push value => value.name
  | .pushPooled kind _ => "push" ++ kind.name
  | .pop => "pop"
  | .dup => "dup"
  | .swap => "swap"
  | .returnVoid => "returnvoid"
  | .returnValue => "returnvalue"
  | .getLocal _ => "getlocal"
  | .setLocal _ => "setlocal"
  | .convert conversion => conversion.name
  | .unary op => op.name
  | .binary op => op.name

/-- How many values an operation pops. -/
def pops : Op → Nat
  | .nop | .label | .branch .always _ | .returnVoid => 0
  | .push _ | .pushPooled .. | .getLocal _ => 0
  | .branch .ifTrue _ | .branch .ifFalse _ | .pop | .dup | .returnValue | .setLocal _ => 1
  | .convert _ | .unary _ => 1
  | .swap | .binary _ => 2

/-- How many values an operation pushes. -/
def pushes : Op → Nat
  | .nop | .label | .branch .. | .pop | .returnVoid | .returnValue | .setLocal _ => 0
  | .push _ | .pushPooled .. | .getLocal _ | .convert _ | .unary _ | .binary _ => 1
  | .dup | .swap => 2

/-- Whether control may leave the straight line. -/
def isBranch : Op → Bool
  | .branch .. => true
  | _ => false

/-- Whether the method ends. -/
def isReturn : Op → Bool
  | .returnVoid | .returnValue => true
  | _ => false

/-- The depth of the stack after an operation. A pop from an empty stack leaves it empty. -/
def depthAfter (depth : Nat) (op : Op) : Nat := depth - op.pops + op.pushes

end Op

/-- The deepest that the stack gets when operations run one after the other, starting at `depth`;
`peak` is the deepest so far. -/
def peakFrom (depth peak : Nat) : List Op → Nat
  | [] => peak
  | op :: ops => peakFrom (op.depthAfter depth) (max peak (op.depthAfter depth)) ops

/-- The deepest that the stack gets when operations run one after the other from an empty stack. -/
def maxStack (ops : List Op) : Nat := peakFrom 0 0 ops

end Swf.Abc
