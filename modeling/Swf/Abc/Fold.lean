import Swf.Abc.Block
import Swf.Abc.Evaluate

/-!
# Constant folding

Operators on literals are replaced by their results, from the leaves up, and conversions that
change nothing are dropped. The static type of an expression stays: one whose folded form would
have another type is left as it is, with all of its parts.
-/

namespace Swf.Abc

/-- Whether converting a value of type `ty` gives it back. A `String` may be `null`, which
`convert_s` turns into a text, and `convert_o` refuses `null`, so those two are never dropped. -/
def Conversion.isIdentity (conversion : Conversion) (ty : Ty) : Bool :=
  ty == conversion.target && conversion != .toString && conversion != .toObject

namespace Expr

/-- `folded`, unless its type is another one than that of `e`. -/
def keepingTy (e folded : Expr) : Expr := if folded.ty = e.ty then folded else e

/-- A unary operation on a folded operand. -/
def foldUnary (op : UnaryOp) (operand : Expr) : Expr :=
  match operand.constant? >>= op.eval? with
  | some value => .constant value
  | none => .unary op operand

/-- A binary operation of type `ty` on folded operands. One that stays is typed by its operands. -/
def foldBinary (op : BinaryOp) (ty : Ty) (lhs rhs : Expr) : Expr :=
  match (do op.eval? ty (← lhs.constant?) (← rhs.constant?) : Option Constant) with
  | some value => .constant value
  | none => ofBinary op lhs rhs

/-- A conversion of a folded operand. -/
def foldConvert (conversion : Conversion) (operand : Expr) : Expr :=
  match operand.constant? with
  | some value =>
    match conversion.eval? value with
    | some converted => .constant converted
    | none => .convert operand conversion
  -- Literals have been tried above: only what is computed can have its conversion dropped.
  | none => if conversion.isIdentity operand.ty then operand else .convert operand conversion

/-- Folds every operation on literals. -/
def fold : Expr → Expr
  | .constant value => .constant value
  | .getLocal index ty => .getLocal index ty
  | .unary op operand => keepingTy (.unary op operand) (foldUnary op operand.fold)
  | .binary op lhs rhs ty =>
    keepingTy (.binary op lhs rhs ty) (foldBinary op ty lhs.fold rhs.fold)
  | .convert operand conversion =>
    keepingTy (.convert operand conversion) (foldConvert conversion operand.fold)

/-- Folding keeps the static type. -/
@[simp] theorem ty_fold (e : Expr) : e.fold.ty = e.ty := by
  have keeps (e folded : Expr) : (keepingTy e folded).ty = e.ty := by
    unfold keepingTy
    split
    · assumption
    · rfl
  cases e <;> simp only [fold, keeps]

end Expr

/-- Folds the expressions of a statement. -/
def Statement.fold : Statement → Statement
  | .setLocal index value => .setLocal index value.fold
  | .discard value => .discard value.fold
  | .exit value => .exit (value.map Expr.fold)

/-- Folds the expressions of a block. -/
def Block.fold (b : Block) : Block :=
  { statements := b.statements.map Statement.fold, stack := b.stack.map Expr.fold }

end Swf.Abc
