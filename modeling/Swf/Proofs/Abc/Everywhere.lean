import Swf.Abc.Block

/-!
# Properties of all parts

A property of single expressions, asked of an expression and everything in it, or of all expressions
of a statement or of a block.
-/

namespace Swf.Abc

/-- A property of an expression and of all of its parts. -/
def Expr.Everywhere (P : Expr → Prop) : Expr → Prop
  | .constant value => P (.constant value)
  | .getLocal index ty => P (.getLocal index ty)
  | .unary op operand => P (.unary op operand) ∧ operand.Everywhere P
  | .binary op lhs rhs ty => P (.binary op lhs rhs ty) ∧ lhs.Everywhere P ∧ rhs.Everywhere P
  | .convert operand conversion => P (.convert operand conversion) ∧ operand.Everywhere P

theorem Expr.Everywhere.self {P : Expr → Prop} {e : Expr} (h : e.Everywhere P) : P e := by
  cases e with
  | constant | getLocal => exact h
  | unary | binary | convert => exact h.1

theorem Expr.Everywhere.imp {P Q : Expr → Prop} (hPQ : ∀ e, P e → Q e) {e : Expr}
    (h : e.Everywhere P) : e.Everywhere Q := by
  induction e with
  | constant | getLocal => exact hPQ _ h
  | unary op operand ih => exact ⟨hPQ _ h.1, ih h.2⟩
  | binary op lhs rhs ty ihl ihr => exact ⟨hPQ _ h.1, ihl h.2.1, ihr h.2.2⟩
  | convert operand conversion ih => exact ⟨hPQ _ h.1, ih h.2⟩

/-- A property of all expressions of a statement, parts included. -/
def Statement.Everywhere (P : Expr → Prop) : Statement → Prop
  | .setLocal _ value | .discard value => value.Everywhere P
  | .exit value => ∀ e ∈ value, e.Everywhere P

/-- A property of all expressions of a block, parts included. -/
structure Block.Everywhere (P : Expr → Prop) (b : Block) : Prop where
  statements : ∀ s ∈ b.statements, s.Everywhere P
  stack : ∀ e ∈ b.stack, e.Everywhere P

/-- One more statement in front of what is left on the stack. -/
theorem Block.Everywhere.append {P : Expr → Prop} {ss : List Statement} {es es' : List Expr}
    {s : Statement} (h : Block.Everywhere P { statements := ss, stack := es })
    (hs : s.Everywhere P) (hes' : ∀ e ∈ es', e.Everywhere P) :
    Block.Everywhere P { statements := ss ++ [s], stack := es' } :=
  ⟨List.forall_mem_append.mpr ⟨h.statements, List.forall_mem_singleton.mpr hs⟩, hes'⟩

end Swf.Abc
