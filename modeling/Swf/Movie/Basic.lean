import Swf.Tag.Basic

/-!
# Movies

A movie is a header and a list of tags. The tag that ends every file is not part of the list.
-/

namespace Swf

/-- The fields between the file header and the first tag. -/
structure MovieHeader where
  version : UInt8 := 10
  /-- The bounds of the stage. -/
  frameSize : Rect := { maxX := 11000, maxY := 8000 }
  /-- Frames per second, in 1/256. -/
  frameRate : UInt16 := 24 * 256
  frameCount : UInt16 := 1
deriving DecidableEq, Repr

/-- A decoded file. -/
structure Movie where
  /-- Whether the body of the file is compressed. -/
  compressed : Bool := false
  header : MovieHeader := {}
  tags : List Tag := []
deriving DecidableEq, Repr

namespace Movie

/-- The records of the written file, in order: the tags of the movie and the one that ends it. -/
def records (m : Movie) : List Tag := m.tags.filter (· ≠ .end) ++ [.end]

/-- The tags of a movie in order, and the one that ends it. -/
def visited (m : Movie) : List Tag := m.tags ++ [.end]

/-- The blocks of bytecode, in order. -/
def abcBlocks (m : Movie) : List DoAbc :=
  m.tags.filterMap fun | .doAbc block => some block | _ => none

end Movie

end Swf
