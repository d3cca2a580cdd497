import Swf.Abc.Block
import Swf.Abc.Op
import Swf.Abc.Pool
import Mathlib.Data.List.Induction
import Mathlib.Logic.Function.Basic

/-!
# The meaning of code and of blocks

Code and blocks are given a meaning over any domain of run-time values. An `Interpretation` says
what literals stand for and what the operators and conversions do, as total functions without side
effects; nothing is assumed of them, except that all doubles that are not a number are one value.

Code runs on a `Machine`: registers, a stack, and the value it returned. A block has no stack
machine in it. Its statements are run in order, and then its values are computed all at once, from
the registers as they are then.
-/

namespace Swf.Abc

/-- What the parts of a program mean. -/
structure Interpretation where
  /-- The run-time values. -/
  Value : Type
  literal : Constant → Value
  unary : UnaryOp → Value → Value
  binary : BinaryOp → Value → Value → Value
  convert : Conversion → Value → Value
  /-- Doubles that are not a number are told apart by nothing. -/
  literal_nan : ∀ d : Double, d.isNaN = true → literal (.number d) = literal (.number Double.nan)

/-- A stack machine in the middle of a method. -/
structure Machine (Value : Type) where
  registers : UInt32 → Value
  /-- The stack, its top first. -/
  stack : List Value := []
  /-- What was returned: a value, or nothing. -/
  returned : Option (Option Value) := none

namespace Interpretation

variable (I : Interpretation)

/-! ## Code -/

/-- The machine after one operation. An operation that finds too few values or no constant has
none, and neither has a branch, which leaves the straight line. -/
def step (pool : Pool) (op : Op) (s : Machine I.Value) : Option (Machine I.Value) :=
  match op, s.stack with
  | .nop, _ | .label, _ => some s
  | .branch .., _ => none
  | .push value, stack => some { s with stack := I.literal value.constant :: stack }
  | .pushPooled kind index, stack =>
    (pool.constant? kind index).map fun value => { s with stack := I.literal value :: stack }
  | .pop, _ :: stack => some { s with stack }
  | .dup, top :: stack => some { s with stack := top :: top :: stack }
  | .swap, top :: below :: stack => some { s with stack := below :: top :: stack }
  | .getLocal i, stack => some { s with stack := s.registers i :: stack }
  | .setLocal i, top :: stack =>
    some { s with registers := Function.update s.registers i top, stack }
  | .convert conversion, top :: stack => some { s with stack := I.convert conversion top :: stack }
  | .unary op, top :: stack => some { s with stack := I.unary op top :: stack }
  | .binary op, rhs :: lhs :: stack => some { s with stack := I.binary op lhs rhs :: stack }
  | .returnVoid, _ => some { s with stack := [], returned := some none }
  | .returnValue, top :: _ => some { s with stack := [], returned := some (some top) }
  | _, _ => none

/-- A literal is pushed from the pool if it is there. -/
theorem step_pushPooled {pool : Pool} {kind : PoolKind} {index : UInt32} {value : Constant}
    (found : pool.constant? kind index = some value) (s : Machine I.Value) :
    I.step pool (.pushPooled kind index) s =
      some { s with stack := I.literal value :: s.stack } := by
  show (pool.constant? kind index).map _ = _
  rw [found]
  rfl

/-- The machine after the operations up to the first return. -/
def run (pool : Pool) : List Op → Machine I.Value → Option (Machine I.Value)
  | [], s => some s
  | op :: ops, s =>
    match I.step pool op s with
    | none => none
    | some s' => if op.isReturn then some s' else run pool ops s'

/-! ## Blocks -/

/-- The value of an expression. -/
def eval (registers : UInt32 → I.Value) : Expr → I.Value
  | .constant value => I.literal value
  | .getLocal index _ => registers index
  | .unary op operand => I.unary op (eval registers operand)
  | .binary op lhs rhs _ => I.binary op (eval registers lhs) (eval registers rhs)
  | .convert operand conversion => I.convert conversion (eval registers operand)

/-- The machine after a statement. -/
def exec (s : Machine I.Value) : Statement → Machine I.Value
  | .setLocal index value =>
    { s with registers := Function.update s.registers index (I.eval s.registers value) }
  | .discard _ => s
  | .exit value => { s with stack := [], returned := some (value.map (I.eval s.registers)) }

/-- The machine after the statements of a block. -/
def afterStatements (registers : UInt32 → I.Value) (statements : List Statement) :
    Machine I.Value := statements.foldl I.exec { registers }

/-- The machine after a block. -/
def meaning (registers : UInt32 → I.Value) (b : Block) : Machine I.Value :=
  let s := I.afterStatements registers b.statements
  { s with stack := b.stack.map (I.eval s.registers) }

theorem afterStatements_append (registers : UInt32 → I.Value) (statements : List Statement)
    (s : Statement) :
    I.afterStatements registers (statements ++ [s]) =
      I.exec (I.afterStatements registers statements) s := by
  unfold afterStatements
  rw [List.foldl_append]
  rfl

/-- Statements put nothing on the stack. -/
theorem stack_afterStatements (registers : UInt32 → I.Value) (statements : List Statement) :
    (I.afterStatements registers statements).stack = [] := by
  induction statements using List.reverseRecOn with
  | nil => rfl
  | append_singleton statements s ih =>
    rw [afterStatements_append]
    cases s with
    | setLocal index value => exact ih
    | discard value => exact ih
    | exit value => rfl

theorem meaning_mk (registers : UInt32 → I.Value) (statements : List Statement)
    (stack : List Expr) :
    I.meaning registers { statements, stack } =
      { I.afterStatements registers statements with
        stack := stack.map (I.eval (I.afterStatements registers statements).registers) } := rfl

/-! ## Locals -/

/-- Writing a local changes no expression that does not read it. -/
theorem eval_update {registers : UInt32 → I.Value} {index : UInt32} {value : I.Value} {e : Expr}
    (h : e.readsLocal index = false) :
    I.eval (Function.update registers index value) e = I.eval registers e := by
  induction e with
  | constant value => rfl
  | getLocal i ty =>
    have hne : i ≠ index := by simpa [Expr.readsLocal] using h
    exact Function.update_of_ne hne _ _
  | unary op operand ih =>
    rw [eval, eval, ih h]
  | binary op lhs rhs ty ihl ihr =>
    obtain ⟨hl, hr⟩ : lhs.readsLocal index = false ∧ rhs.readsLocal index = false := by
      simpa [Expr.readsLocal] using h
    rw [eval, eval, ihl hl, ihr hr]
  | convert operand conversion ih =>
    rw [eval, eval, ih h]

/-! ## Sequences -/

/-- Code that does not return goes on with what stands behind it. -/
theorem run_cons {pool : Pool} {op : Op} {ops : List Op} {s s' : Machine I.Value}
    (h : I.step pool op s = some s') (hop : op.isReturn = false) :
    I.run pool (op :: ops) s = I.run pool ops s' := by
  rw [run, h]
  simp only [hop]
  rfl

/-- Code behind a return is not run. -/
theorem run_return {pool : Pool} {op : Op} {ops : List Op} {s s' : Machine I.Value}
    (h : I.step pool op s = some s') (hop : op.isReturn = true) :
    I.run pool (op :: ops) s = some s' := by
  rw [run, h]
  simp only [hop, if_true]

end Interpretation

end Swf.Abc
