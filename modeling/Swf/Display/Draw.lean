import Swf.Display.BlendMode
import Swf.Number.Double

/-!
# Drawing display nodes

A render backend has a stack of matrices and a blend state. Drawing a node saves the matrix, rotates
and moves it, sets additive blending if the node asks for it, and hands the backend to a painting;
whatever the painting does, and however it ends, the backend's state is restored after it.

A painting may draw further nodes on the same backend and look at how they ended. What reaches the
backend is the trace of its calls.
-/

namespace Swf

/-- Placement of one visual node. -/
structure DisplayNode where
  x : Double
  y : Double
  /-- Clockwise rotation in degrees. -/
  rotation : Double
  blendMode : BlendMode
deriving DecidableEq, Repr

/-- One degree in radians. -/
def radiansPerDegree : Double := ⟨0x3f91df46a2529d39⟩

/-- The rotation in radians, as a 32-bit number. -/
def DisplayNode.rotationRadians (node : DisplayNode) : UInt32 :=
  (node.rotation.mul radiansPerDegree).toBinary32

/-- A call that reaches the backend. -/
inductive BackendCall where
  | pushMatrix
  | popMatrix
  | rotate (radians : UInt32)
  | translate (x y : Double)
  | enableAdditiveBlend
  | disableBlend
  /-- A painting draws something of its own. -/
  | render
deriving DecidableEq, Repr

/-- How a painting ends. -/
inductive PaintOutcome (ε : Type) where
  | success
  | failure (error : ε)
  /-- It breaks off, and with it the paintings around it up to one that catches the panic. -/
  | panic
deriving DecidableEq, Repr

/-- What a painting does with the backend it is handed. -/
inductive Painting (ε : Type) where
  | finish (outcome : PaintOutcome ε)
  | render (rest : Painting ε)
  /-- Draws a node with a painting of its own and goes on as that one ended. A painting that does
  not catch panics goes on from one with `finish .panic`. -/
  | draw (node : DisplayNode) (inner : Painting ε) (next : PaintOutcome ε → Painting ε)

namespace DisplayNode

/-- The calls before a node is painted. -/
def enter (node : DisplayNode) : List BackendCall :=
  [.pushMatrix, .rotate node.rotationRadians, .translate node.x node.y] ++
    if node.blendMode.isAdditive then [.enableAdditiveBlend] else []

/-- The calls after a node is painted. -/
def leave (node : DisplayNode) : List BackendCall :=
  (if node.blendMode.isAdditive then [.disableBlend] else []) ++ [.popMatrix]

/-- The trace of drawing a node whose painting leaves the trace `inner`. -/
def bracket (node : DisplayNode) (inner : List BackendCall) : List BackendCall :=
  node.enter ++ inner ++ node.leave

end DisplayNode

namespace Painting

variable {ε : Type}

/-- The trace of a painting and how it ends. -/
def run : Painting ε → List BackendCall × PaintOutcome ε
  | finish outcome => ([], outcome)
  | render rest => (.render :: rest.run.1, rest.run.2)
  | draw node inner next =>
    (node.bracket inner.run.1 ++ (next inner.run.2).run.1, (next inner.run.2).run.2)

end Painting

/-- Draws a node: the trace of all calls, and what the painting handed back. -/
def DisplayNode.draw {ε : Type} (node : DisplayNode) (painting : Painting ε) :
    List BackendCall × PaintOutcome ε :=
  (node.bracket painting.run.1, painting.run.2)

/-- Draws nodes in turn on one backend; each outcome is caught before the next node. -/
def drawAll {ε : Type} (draws : List (DisplayNode × Painting ε)) :
    List BackendCall × List (PaintOutcome ε) :=
  let results := draws.map fun (node, painting) => node.draw painting
  (results.flatMap (·.1), results.map (·.2))

end Swf
