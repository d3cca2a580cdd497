import Swf.Abc.Expr

/-!
# Blocks

Straight-line code as statements. A statement consumes values without producing one; what is not
consumed by any stays on the stack.
-/

namespace Swf.Abc

/-- What consumes a value, or ends the method. -/
inductive Statement where
  | setLocal (index : UInt32) (value : Expr)
  /-- A value that is computed and dropped. -/
  | discard (value : Expr)
  /-- The method ends, with a value or without one. -/
  | exit (value : Option Expr)
deriving DecidableEq, Repr

/-- Statements, and the values that are left. -/
structure Block where
  statements : List Statement := []
  /-- The values on the stack, its top first. -/
  stack : List Expr := []
deriving DecidableEq, Repr

namespace Block

/-- The block with one more statement at its end. -/
def append (b : Block) (s : Statement) : Block := { b with statements := b.statements ++ [s] }

/-- Whether the method ends in the block. -/
def isTerminated (b : Block) : Bool :=
  match b.statements.getLast? with
  | some (.exit _) => true
  | _ => false

end Block

end Swf.Abc
