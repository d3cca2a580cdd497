import Swf.Movie.Basic

/-!
# What a movie defines

Frames are counted by their tags, characters by the tags that define them: images and embedded
data. A scaling grid decorates a character and defines none.
-/

namespace Swf

namespace Tag

/-- The character that a tag defines. -/
def definedId? : Tag → Option UInt16
  | .defineBitsJpeg2 image => some image.characterId
  | .defineBinaryData blob => some blob.characterId
  | _ => none

end Tag

/-- How often each character id is defined, by ascending id. -/
abbrev IdCounts := List (UInt16 × Nat)

namespace IdCounts

/-- Counts one more definition of `id`. -/
def define (id : UInt16) : IdCounts → IdCounts
  | [] => [(id, 1)]
  | (other, count) :: rest =>
    if id < other then (id, 1) :: (other, count) :: rest
    else if id = other then (other, count + 1) :: rest
    else (other, count) :: define id rest

end IdCounts

/-- Frames shown and characters defined. -/
structure Census where
  frames : Nat := 0
  characters : IdCounts := []
deriving DecidableEq, Repr

namespace Census

/-- Takes one more tag into account. -/
def add (census : Census) (tag : Tag) : Census where
  frames := if tag = .showFrame then census.frames + 1 else census.frames
  characters := match tag.definedId? with
    | some id => IdCounts.define id census.characters
    | none => census.characters

/-- The ids that are defined more than once, ascending. -/
def duplicateIds (census : Census) : List UInt16 :=
  (census.characters.filter (·.2 > 1)).map (·.1)

end Census

/-- Counts the frames and characters of a movie. -/
def Movie.census (m : Movie) : Census := m.visited.foldl Census.add {}

end Swf
