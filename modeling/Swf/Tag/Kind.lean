/-!
# Kinds of tags

The record codes that have a tag of their own, and the codes whose records are always framed with
a long header.
-/

namespace Swf

/-- The kinds of tags with a layout of their own. -/
inductive TagKind where
  | «end»
  | showFrame
  | setBackgroundColor
  | defineBitsJpeg2
  | scriptLimits
  | fileAttributes
  | symbolClass
  | metadata
  | defineScalingGrid
  | doAbc
  | defineBinaryData
deriving DecidableEq, Repr

namespace TagKind

/-- All kinds, in the order of their codes. -/
def all : List TagKind :=
  [.end, .showFrame, .setBackgroundColor, .defineBitsJpeg2, .scriptLimits, .fileAttributes,
    .symbolClass, .metadata, .defineScalingGrid, .doAbc, .defineBinaryData]

/-- The record code of a kind. -/
def code : TagKind → UInt16
  | .end => 0
  | .showFrame => 1
  | .setBackgroundColor => 9
  | .defineBitsJpeg2 => 21
  | .scriptLimits => 65
  | .fileAttributes => 69
  | .symbolClass => 76
  | .metadata => 77
  | .defineScalingGrid => 78
  | .doAbc => 82
  | .defineBinaryData => 87

/-- The kind with a record code, if there is one. -/
def ofCode? (code : UInt16) : Option TagKind := all.find? (·.code == code)

/-- The name of a kind in the documentation of the file format. -/
def name : TagKind → String
  | .end => "End"
  | .showFrame => "ShowFrame"
  | .setBackgroundColor => "SetBackgroundColor"
  | .defineBitsJpeg2 => "DefineBitsJPEG2"
  | .scriptLimits => "ScriptLimits"
  | .fileAttributes => "FileAttributes"
  | .symbolClass => "SymbolClass"
  | .metadata => "Metadata"
  | .defineScalingGrid => "DefineScalingGrid"
  | .doAbc => "DoABC"
  | .defineBinaryData => "DefineBinaryData"

/-- Whether the payload of a kind starts with a character id. -/
def hasCharacterId : TagKind → Bool
  | .defineBitsJpeg2 | .defineScalingGrid | .defineBinaryData => true
  | _ => false

/-- A code belongs to the kind that is found for it. -/
theorem code_of_ofCode? {code : UInt16} {kind : TagKind} (h : ofCode? code = some kind) :
    kind.code = code := by
  simpa using List.find?_some h

/-- A kind is found under its own code. -/
@[simp] theorem ofCode?_code (kind : TagKind) : ofCode? kind.code = some kind := by
  cases kind <;> rfl

end TagKind

/-- The codes of image and sound data that are framed with a long header at any length. -/
def longHeaderCodes : List UInt16 := [6, 19, 20, 21, 35, 36, 90]

/-- Whether records with this code are framed with a long header at any length. -/
def requiresLongHeader (code : UInt16) : Bool := longHeaderCodes.contains code

end Swf
