import Swf.Abc.Emission

/-!
# Methods

A method under construction: its code and how deep a stack that code needs.
-/

namespace Swf.Abc

/-- The body of a method. -/
structure Method where
  /-- How many locals it has, `this` included. -/
  localCount : UInt32
  /-- The deepest stack that its values need. -/
  maxStack : Nat := 0
  code : List Op := []
deriving DecidableEq, Repr

namespace Method

/-- The body with one more operation; the depth of the stack is not looked at. -/
def push (m : Method) (op : Op) : Method := { m with code := m.code ++ [op] }

/-- The body with code that pushes the value of `e` at its end. -/
def emit (m : Method) (e : Expr) : Emitter Method := do
  let code := m.code ++ (← e.emit m.localCount)
  return { m with code, maxStack := max m.maxStack (Abc.maxStack code) }

end Method

end Swf.Abc
