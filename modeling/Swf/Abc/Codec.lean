import Swf.Abc.Varint
import Swf.Word

/-!
# Operations as bytes

An operation is an opcode and, for some, an operand: a variable-length integer, one byte, or the
three low bytes of a branch offset. Locals 0 to 3 have opcodes of their own, which are used when
writing; in reading, the long forms are accepted as well.

One table, `layouts`, says how each opcode goes on. Reading looks into the table and writing does
not, so that the two are separate descriptions of the format.
-/

namespace Swf.Abc

namespace Immediate

def opcode : Immediate → UInt8
  | .null => 0x20
  | .undefined => 0x21
  | .byte _ => 0x24
  | .short _ => 0x25
  | .true => 0x26
  | .false => 0x27
  | .nan => 0x28

def operand : Immediate → List UInt8
  | .byte value => [value.toUInt8]
  | .short value => Varint.encode value.toUInt16.toUInt32
  | _ => []

end Immediate

def PoolKind.opcode : PoolKind → UInt8
  | .string => 0x2c
  | .int => 0x2d
  | .uint => 0x2e
  | .double => 0x2f

def BranchKind.opcode : BranchKind → UInt8
  | .always => 0x10
  | .ifTrue => 0x11
  | .ifFalse => 0x12

/-- The bytes of an operation on a local: `short` is the opcode for local 0, `long` the one that
takes an operand. -/
def localBytes (short long : UInt8) (index : UInt32) : List UInt8 :=
  if index < 4 then [short + index.toUInt8] else long :: Varint.encode index

namespace Op

/-- The bytes of an operation. Of a branch offset, the low 24 bits are written. -/
def encode : Op → List UInt8
  | .nop => [0x02]
  | .label => [0x09]
  | .branch kind offset => kind.opcode :: (bytesOfUInt32 offset.toUInt32).take 3
  | .push value => value.opcode :: value.operand
  | .pushPooled kind index => kind.opcode :: Varint.encode index
  | .pop => [0x29]
  | .dup => [0x2a]
  | .swap => [0x2b]
  | .returnVoid => [0x47]
  | .returnValue => [0x48]
  | .getLocal index => localBytes 0xd0 0x62 index
  | .setLocal index => localBytes 0xd4 0x63 index
  | .convert conversion => [conversion.opcode]
  | .unary op => [op.opcode]
  | .binary op => [op.opcode]

end Op

/-- How an opcode goes on. -/
inductive Layout where
  /-- It is a whole operation. -/
  | whole (op : Op)
  | branch (kind : BranchKind)
  | byte
  | short
  | pooled (kind : PoolKind)
  | getLocal
  | setLocal
deriving DecidableEq, Repr

namespace Layout

/-- Reads the operand. -/
def read : Layout → CodeReader Op
  | .whole op => return op
  | .branch kind => do
    return .branch kind (signExtend 24 (UInt32.ofNat (littleEndian (← CodeReader.takeTriple))))
  | .byte => do return .push (.byte (← CodeReader.takeByte).toInt8)
  | .short => do return .push (.short (← Varint.read).toUInt16.toInt16)
  | .pooled kind => do return .pushPooled kind (← Varint.read)
  | .getLocal => do return .getLocal (← Varint.read)
  | .setLocal => do return .setLocal (← Varint.read)

end Layout

/-- The opcodes of operations without an operand. -/
def wholeOps : List (UInt8 × Op) :=
  [(0x02, .nop), (0x09, .label), (0x20, .push .null), (0x21, .push .undefined),
    (0x26, .push .true), (0x27, .push .false), (0x28, .push .nan), (0x29, .pop), (0x2a, .dup),
    (0x2b, .swap), (0x47, .returnVoid), (0x48, .returnValue), (0xd0, .getLocal 0),
    (0xd1, .getLocal 1), (0xd2, .getLocal 2), (0xd3, .getLocal 3), (0xd4, .setLocal 0),
    (0xd5, .setLocal 1), (0xd6, .setLocal 2), (0xd7, .setLocal 3)] ++
  Conversion.all.map (fun conversion => (conversion.opcode, .convert conversion)) ++
  UnaryOp.all.map (fun op => (op.opcode, .unary op)) ++
  BinaryOp.all.map (fun op => (op.opcode, .binary op))

/-- How each opcode goes on. -/
def layouts : List (UInt8 × Layout) :=
  [(0x10, .branch .always), (0x11, .branch .ifTrue), (0x12, .branch .ifFalse), (0x24, .byte),
    (0x25, .short), (0x2c, .pooled .string), (0x2d, .pooled .int), (0x2e, .pooled .uint),
    (0x2f, .pooled .double), (0x62, .getLocal), (0x63, .setLocal)] ++
  wholeOps.map (fun (opcode, op) => (opcode, .whole op))

namespace CodeReader

/-- Reads one operation. -/
def readOp : CodeReader Op := fun c =>
  match takeByte c with
  | .error err c' => .error err c'
  | .ok opcode c' =>
    match layouts.lookup opcode with
    | some layout => layout.read c'
    | none => .error (.unknownOpcode opcode c.offset) c'

/-! ### Every operation takes a byte -/

theorem Forward.layout (layout : Layout) : Forward layout.read := by
  cases layout with
  | whole op => exact .pure _
  | branch kind => exact Forward.takeTriple.bind fun _ => .pure _
  | byte => exact Forward.takeByte.bind fun _ => .pure _
  | short => exact Forward.varint.bind fun _ => .pure _
  | pooled kind => exact Forward.varint.bind fun _ => .pure _
  | getLocal => exact Forward.varint.bind fun _ => .pure _
  | setLocal => exact Forward.varint.bind fun _ => .pure _

/-- Reading an operation takes at least a byte. -/
theorem length_lt_of_readOp {c c' : Cursor} {op : Op} (h : readOp c = .ok op c') :
    c'.rest.length < c.rest.length := by
  unfold readOp at h
  split at h
  · simp at h
  · next b c1 hb =>
    split at h
    · next layout _ =>
      have hle := Forward.layout layout _ _ _ h
      simp only [rest_of_takeByte hb, List.length_cons]
      omega
    · simp at h

/-- Reads operations to the end of the code. `done` holds those before, the last one first. -/
def readOps (done : List Op) : CodeReader (List Op) := fun c =>
  if c.rest = [] then .ok done.reverse c
  else
    match _h : readOp c with
    | .ok op c' => readOps (op :: done) c'
    | .error err c' => .error err c'
termination_by c => c.rest.length
decreasing_by exact length_lt_of_readOp _h

end CodeReader

/-- The bytes of a list of operations. -/
def encodeOps (ops : List Op) : List UInt8 := ops.flatMap Op.encode

/-- The operations that bytes stand for. -/
def decodeOps (code : List UInt8) : Except AbcError (List Op) :=
  match CodeReader.readOps [] { rest := code } with
  | .ok ops _ => .ok ops
  | .error err _ => .error err

end Swf.Abc
