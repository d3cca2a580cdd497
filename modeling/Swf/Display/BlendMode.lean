/-!
# Blend modes
-/

namespace Swf

/-- How a display node is combined with what lies below it. -/
inductive BlendMode where
  | normal
  | layer
  | multiply
  | screen
  | lighten
  | darken
  | difference
  | add
  | subtract
  | invert
  | alpha
  | erase
  | overlay
  | hardlight
deriving DecidableEq, Repr

namespace BlendMode

/-- All blend modes. -/
def all : List BlendMode :=
  [.normal, .layer, .multiply, .screen, .lighten, .darken, .difference, .add, .subtract, .invert,
    .alpha, .erase, .overlay, .hardlight]

/-- The name of a blend mode. -/
def name : BlendMode → String
  | normal => "normal"
  | layer => "layer"
  | multiply => "multiply"
  | screen => "screen"
  | lighten => "lighten"
  | darken => "darken"
  | difference => "difference"
  | add => "add"
  | subtract => "subtract"
  | invert => "invert"
  | alpha => "alpha"
  | erase => "erase"
  | overlay => "overlay"
  | hardlight => "hardlight"

/-- The blend mode of a name, exactly as it is written. -/
def ofName? (text : String) : Option BlendMode := all.find? (·.name == text)

/-- What is said about a text that names no blend mode. -/
def unknownMessage (text : String) : String := s!"unknown blend mode: {text}"

/-- Whether a blend mode adds colours, which takes a state of its own. -/
def isAdditive (mode : BlendMode) : Bool := mode == .add

/-- A blend mode is found under its own name. -/
@[simp] theorem ofName?_name (mode : BlendMode) : ofName? mode.name = some mode := by
  cases mode <;> decide

end BlendMode

end Swf
