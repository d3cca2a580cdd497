import Swf.Display.Draw

/-!
# Nesting of a backend's calls

A backend opens two kinds of scope: a saved matrix, and additive blending. A trace is *nested* when
it is made of paintings' own calls and of whole nodes: a node saves the matrix, rotates, moves, and
ends by giving the matrix back, with its blending inside. The trace of every painting is nested,
however it and the paintings inside it end, and a nested trace leaves a backend with the scopes that
were open before.
-/

namespace Swf

/-- What a backend has opened and has to close again. -/
inductive Scope where
  | matrix
  | additiveBlend
deriving DecidableEq, Repr

/-- Closes a scope, which has to be the innermost one. -/
def Scope.close (scope : Scope) : List Scope → Option (List Scope)
  | [] => none
  | innermost :: opened => if innermost = scope then some opened else none

@[simp] theorem Scope.close_cons (scope : Scope) (opened : List Scope) :
    scope.close (scope :: opened) = some opened := by
  simp [Scope.close]

namespace BackendCall

/-- The open scopes after a call, innermost first; none if the call closes what is not the
innermost. -/
def scopesAfter (opened : List Scope) : BackendCall → Option (List Scope)
  | pushMatrix => some (.matrix :: opened)
  | popMatrix => Scope.matrix.close opened
  | enableAdditiveBlend => some (.additiveBlend :: opened)
  | disableBlend => Scope.additiveBlend.close opened
  | rotate _ => some opened
  | translate _ _ => some opened
  | render => some opened

/-- The open scopes after a trace. -/
def scopes (calls : List BackendCall) (opened : List Scope) : Option (List Scope) :=
  calls.foldlM scopesAfter opened

@[simp] theorem scopes_nil (opened : List Scope) : scopes [] opened = some opened := rfl

@[simp] theorem scopes_cons (call : BackendCall) (calls : List BackendCall) (opened : List Scope) :
    scopes (call :: calls) opened = (scopesAfter opened call).bind (scopes calls) := rfl

@[simp] theorem scopes_append (calls more : List BackendCall) (opened : List Scope) :
    scopes (calls ++ more) opened = (scopes calls opened).bind (scopes more) :=
  List.foldlM_append ..

end BackendCall

open BackendCall

/-! ### Whole nodes -/

/-- A trace of whole nodes and of what paintings draw of their own. -/
inductive Nested : List BackendCall → Prop where
  | nil : Nested []
  | render {rest : List BackendCall} (after : Nested rest) : Nested (.render :: rest)
  | plain (radians : UInt32) (x y : Double) {inner rest : List BackendCall}
      (inside : Nested inner) (after : Nested rest) :
      Nested ([.pushMatrix, .rotate radians, .translate x y] ++ inner ++ [.popMatrix] ++ rest)
  | additive (radians : UInt32) (x y : Double) {inner rest : List BackendCall}
      (inside : Nested inner) (after : Nested rest) :
      Nested ([.pushMatrix, .rotate radians, .translate x y, .enableAdditiveBlend] ++ inner ++
        [.disableBlend, .popMatrix] ++ rest)

namespace Nested

theorem append {calls more : List BackendCall} (before : Nested calls) (after : Nested more) :
    Nested (calls ++ more) := by
  induction before with
  | nil => exact after
  | render _ ih => exact .render ih
  | plain radians x y inside _ _ ih =>
    rw [List.append_assoc _ _ more]
    exact .plain radians x y inside ih
  | additive radians x y inside _ _ ih =>
    rw [List.append_assoc _ _ more]
    exact .additive radians x y inside ih

theorem bracket (node : DisplayNode) {inner : List BackendCall} (inside : Nested inner) :
    Nested (node.bracket inner) := by
  cases additive : node.blendMode.isAdditive with
  | false =>
    simpa [DisplayNode.bracket, DisplayNode.enter, DisplayNode.leave, additive] using
      Nested.plain node.rotationRadians node.x node.y inside .nil
  | true =>
    simpa [DisplayNode.bracket, DisplayNode.enter, DisplayNode.leave, additive] using
      Nested.additive node.rotationRadians node.x node.y inside .nil

theorem flatMap {α : Type} {trace : α → List BackendCall} (items : List α)
    (each : ∀ item ∈ items, Nested (trace item)) : Nested (items.flatMap trace) := by
  induction items with
  | nil => exact .nil
  | cons item items ih =>
    rw [List.flatMap_cons]
    exact (each item (by simp)).append (ih fun other mem => each other (by simp [mem]))

/-- Whatever is open stays open, and nothing more. -/
theorem scopes_eq {calls : List BackendCall} (nested : Nested calls) (opened : List Scope) :
    scopes calls opened = some opened := by
  induction nested generalizing opened with
  | nil => rfl
  | render _ ih => simp [scopesAfter, ih]
  | plain radians x y _ _ inside after => simp [scopesAfter, inside, after]
  | additive radians x y _ _ inside after => simp [scopesAfter, inside, after]

end Nested

/-! ### Paintings -/

theorem Painting.nested_run {ε : Type} (painting : Painting ε) : Nested painting.run.1 := by
  induction painting with
  | finish outcome => exact .nil
  | render rest ih => exact .render ih
  | draw node inner next inside after => exact (inside.bracket node).append (after inner.run.2)

theorem DisplayNode.nested_draw {ε : Type} (node : DisplayNode) (painting : Painting ε) :
    Nested (node.draw painting).1 :=
  painting.nested_run.bracket node

theorem nested_drawAll {ε : Type} (draws : List (DisplayNode × Painting ε)) :
    Nested (drawAll draws).1 :=
  Nested.flatMap _ fun result mem => by
    obtain ⟨⟨node, painting⟩, -, rfl⟩ := List.mem_map.mp mem
    exact node.nested_draw painting

end Swf
