import Swf.Rect
import Swf.Tag.Kind

/-!
# Tags

A tag is one decoded record. Each kind with a layout of its own has a constructor that carries its
payload; a record of any other code is kept byte for byte.
-/

namespace Swf

/-- A colour of three channels. -/
structure Rgb where
  red : UInt8
  green : UInt8
  blue : UInt8
deriving DecidableEq, Repr

/-- A JPEG image with its own encoding tables. -/
structure DefineBitsJpeg2 where
  characterId : UInt16
  imageData : List UInt8
deriving DecidableEq, Repr

/-- Bounds on the scripts of a movie. -/
structure ScriptLimits where
  maxRecursionDepth : UInt16
  scriptTimeoutSeconds : UInt16
deriving DecidableEq, Repr

/-- The flags of a whole movie. -/
structure FileAttributes where
  useDirectBlit : Bool
  useGpu : Bool
  hasMetadata : Bool
  actionScript3 : Bool
  useNetwork : Bool
deriving DecidableEq, Repr

/-- Links from character ids to class names. -/
structure SymbolClass where
  symbols : List (UInt16 × String)
deriving DecidableEq, Repr

/-- The nine-slice scaling grid of a sprite or button. -/
structure DefineScalingGrid where
  characterId : UInt16
  splitter : Rect
deriving DecidableEq, Repr

/-- A block of ActionScript bytecode. -/
structure DoAbc where
  flags : UInt32
  name : String
  abcData : List UInt8
deriving DecidableEq, Repr

/-- Whether the block's scripts are initialized on first use only: the lowest flag. -/
def DoAbc.isLazy (block : DoAbc) : Bool := block.flags &&& 1 != 0

/-- Embedded data of any form. The reserved word should be zero and is kept as it is. -/
structure DefineBinaryData where
  characterId : UInt16
  reserved : UInt32
  data : List UInt8
deriving DecidableEq, Repr

/-- A record kept byte for byte. -/
structure UnknownTag where
  code : UInt16
  data : List UInt8
deriving DecidableEq, Repr

/-- One decoded record. -/
inductive Tag where
  | «end»
  | showFrame
  | setBackgroundColor (color : Rgb)
  | defineBitsJpeg2 (image : DefineBitsJpeg2)
  | scriptLimits (limits : ScriptLimits)
  | fileAttributes (attributes : FileAttributes)
  | symbolClass (links : SymbolClass)
  /-- A description in XML. -/
  | metadata (xml : String)
  | defineScalingGrid (grid : DefineScalingGrid)
  | doAbc (block : DoAbc)
  | defineBinaryData (blob : DefineBinaryData)
  | unknown (record : UnknownTag)
deriving DecidableEq, Repr

namespace Tag

/-- The kind of a tag; a record kept byte for byte has none. -/
def kind? : Tag → Option TagKind
  | .end => some .end
  | .showFrame => some .showFrame
  | .setBackgroundColor _ => some .setBackgroundColor
  | .defineBitsJpeg2 _ => some .defineBitsJpeg2
  | .scriptLimits _ => some .scriptLimits
  | .fileAttributes _ => some .fileAttributes
  | .symbolClass _ => some .symbolClass
  | .metadata _ => some .metadata
  | .defineScalingGrid _ => some .defineScalingGrid
  | .doAbc _ => some .doAbc
  | .defineBinaryData _ => some .defineBinaryData
  | .unknown _ => none

/-- The record code of a tag. -/
def code : Tag → UInt16
  | .unknown record => record.code
  | tag => (tag.kind?.map TagKind.code).getD 0

/-- The name of a tag's kind. -/
def name (tag : Tag) : String := (tag.kind?.map TagKind.name).getD "Unknown"

/-- Whether the length of a tag follows from its parts without writing it out. Bit-packed payloads
are measured instead. -/
def isLengthKnown : Tag → Bool
  | .defineScalingGrid _ => false
  | _ => true

end Tag

end Swf
