import Swf.Movie.Basic
import Swf.Number.Decimal
import Swf.Tag.Codec
import Swf.Text.Hexadecimal
import Swf.Text.Quoted

/-!
# Summaries of movies

A summary lists the header of a movie and one row per record of it, the ending record included: its
code, its name, its payload size and one line about what it holds.
-/

namespace Swf

namespace Tag

/-- The names of the flags that are set. -/
def flagNames (a : FileAttributes) : List String :=
  [(a.useDirectBlit, "direct-blit"), (a.useGpu, "gpu"), (a.hasMetadata, "metadata"),
    (a.actionScript3, "as3"), (a.useNetwork, "network")].filterMap
    fun (set, name) => if set then some name else none

/-- A colour as six hexadecimal digits. -/
def colorCode (c : Rgb) : String :=
  "#" ++ Text.hexByte c.red ++ Text.hexByte c.green ++ Text.hexByte c.blue

/-- One line about what a tag holds. -/
def detail : Tag → String
  | .end | .showFrame => ""
  | .setBackgroundColor color => colorCode color
  | .defineBitsJpeg2 image => s!"id={image.characterId.toNat} image={image.imageData.length}B"
  | .scriptLimits limits =>
    s!"recursion={limits.maxRecursionDepth.toNat} timeout={limits.scriptTimeoutSeconds.toNat}s"
  | .fileAttributes attributes => String.intercalate "," (flagNames attributes)
  | .symbolClass links =>
    String.intercalate " " (links.symbols.map fun (id, name) => s!"{id.toNat}={name}")
  | .metadata xml => s!"{xml.utf8ByteSize}B xml"
  | .defineScalingGrid grid => s!"id={grid.characterId.toNat} splitter={grid.splitter.display}"
  | .doAbc block =>
    s!"name={Text.quoted block.name} abc={block.abcData.length}B" ++
      if block.isLazy then " lazy" else ""
  | .defineBinaryData blob => s!"id={blob.characterId.toNat} data={blob.data.length}B"
  | .unknown record => s!"{record.data.length}B raw"

end Tag

/-- One listed record. -/
structure TagSummary where
  code : UInt16
  name : String
  length : UInt32
  detail : String
deriving DecidableEq, Repr

/-- The row of a tag; a tag whose length cannot be told has none. -/
def TagSummary.ofTag (tag : Tag) : Except CodecError TagSummary := do
  return { code := tag.code, name := tag.name, length := ← tag.length, detail := tag.detail }

/-- The header of a movie and one row per record. -/
structure MovieSummary where
  compressed : Bool
  header : MovieHeader
  tags : List TagSummary
deriving DecidableEq, Repr

namespace MovieHeader

/-- The denominator of the frame rate. -/
def rateUnit : Nat := 256

/-- The frame rate as a 32-bit number; each rate is exactly one. -/
def framesPerSecond (h : MovieHeader) : BinaryValue :=
  binary32.round false h.frameRate.toNat rateUnit

end MovieHeader

/-- The summary of a movie. -/
def Movie.summarize (m : Movie) : Except CodecError MovieSummary := do
  let tags ← m.visited.mapM TagSummary.ofTag
  return { compressed := m.compressed, header := m.header, tags }

end Swf
