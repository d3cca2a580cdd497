import Swf.Abc.Error

/-!
# Expressions

What the operations of a method compute, as trees over constants and locals. Every expression has a
static type that is known without looking below its root; `Expr.widen` is the one place where an
expression is brought to another type. Constants never are: a literal of the wrong type is an error
and not a conversion.
-/

namespace Swf.Abc

/-- A computed value. -/
inductive Expr where
  | constant (value : Constant)
  | getLocal (index : UInt32) (ty : Ty)
  | unary (op : UnaryOp) (operand : Expr)
  /-- The type is fixed when the expression is built. -/
  | binary (op : BinaryOp) (lhs rhs : Expr) (ty : Ty)
  | convert (operand : Expr) (conversion : Conversion)
deriving DecidableEq, Repr

namespace Expr

/-- The static type. -/
def ty : Expr → Ty
  | .constant value => value.ty
  | .getLocal _ ty => ty
  | .unary op _ => op.resultTy
  | .binary _ _ _ ty => ty
  | .convert _ conversion => conversion.target

/-- A binary operation on two expressions, typed by its operands. -/
def ofBinary (op : BinaryOp) (lhs rhs : Expr) : Expr :=
  .binary op lhs rhs (op.resultTy lhs.ty rhs.ty)

/-- The literal that an expression is, if it is one. -/
def constant? : Expr → Option Constant
  | .constant value => some value
  | _ => none

/-- An expression as one of type `target`: itself if it has that type, and a conversion of it if it
is computed. Nothing converts to `null` or `void`. -/
def widen (e : Expr) (target : Ty) : Except AbcError Expr :=
  if e.ty = target then .ok e
  else
    match e.constant?, target.conversion? with
    | none, some conversion => .ok (.convert e conversion)
    | _, _ => .error (.typeMismatch e.ty target)

/-- Whether evaluating an expression reads a local. -/
def readsLocal (index : UInt32) : Expr → Bool
  | .constant _ => false
  | .getLocal i _ => i == index
  | .unary _ operand => operand.readsLocal index
  | .binary _ lhs rhs _ => lhs.readsLocal index || rhs.readsLocal index
  | .convert operand _ => operand.readsLocal index

/-- What was widened has the type that was asked for. -/
theorem ty_of_widen {e e' : Expr} {target : Ty} (h : e.widen target = .ok e') : e'.ty = target := by
  unfold widen at h
  split at h
  · next ht => simpa [← Except.ok.inj h] using ht
  · split at h
    · next conversion _ hto =>
      obtain rfl := Except.ok.inj h
      exact Ty.target_of_conversion? hto
    · simp at h

end Expr

end Swf.Abc
