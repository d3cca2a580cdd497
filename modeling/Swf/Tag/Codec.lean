import Swf.RecordHeader
import Swf.Tag.Basic

/-!
# Payloads of tags

How each kind of tag is laid out in its record, how long that is, and how it is read back. Kinds
that end in a blob take all of their declared length; the others take what their layout needs and
leave any excess to the framing of records.
-/

namespace Swf

/-- A payload size as the 32-bit length of a record header. -/
def recordLength (size : Nat) : Except CodecError UInt32 :=
  if size < 0x100000000 then .ok (UInt32.ofNat size)
  else .error (.rangeOverflow .recordLength (bitLength size) 32)

namespace RecordHeader

/-- How much of the declared payload is left after `consumed` bytes. -/
def remaining (h : RecordHeader) (consumed : Nat) : Except CodecError Nat :=
  if consumed > h.length.toNat then .error (.lengthMismatch h.code h.length.toNat consumed)
  else .ok (h.length.toNat - consumed)

end RecordHeader

namespace DefineBitsJpeg2

def read (header : RecordHeader) : Decoder DefineBitsJpeg2 := do
  let characterId ← Decoder.readUInt16
  let size ← Decoder.ofExcept (header.remaining 2)
  let imageData ← Decoder.readBytes size
  return { characterId, imageData }

def write (image : DefineBitsJpeg2) : Encoder Unit := do
  Encoder.writeUInt16 image.characterId
  Encoder.writeBytes image.imageData

end DefineBitsJpeg2

namespace FileAttributes

/-- Reads four bytes of flags; reserved bits may hold anything. -/
def read : Decoder FileAttributes := do
  let _ ← Decoder.readUnsigned 1
  let useDirectBlit ← Decoder.readFlag
  let useGpu ← Decoder.readFlag
  let hasMetadata ← Decoder.readFlag
  let actionScript3 ← Decoder.readFlag
  let _ ← Decoder.readUnsigned 2
  let useNetwork ← Decoder.readFlag
  let _ ← Decoder.readUnsigned 24
  return { useDirectBlit, useGpu, hasMetadata, actionScript3, useNetwork }

/-- Writes four bytes of flags; reserved bits are zero. -/
def write (attributes : FileAttributes) : Encoder Unit := do
  Encoder.writeUnsigned 1 0
  Encoder.writeFlag attributes.useDirectBlit
  Encoder.writeFlag attributes.useGpu
  Encoder.writeFlag attributes.hasMetadata
  Encoder.writeFlag attributes.actionScript3
  Encoder.writeUnsigned 2 0
  Encoder.writeFlag attributes.useNetwork
  Encoder.writeUnsigned 24 0

end FileAttributes

namespace SymbolClass

/-- Reads `count` links. -/
def readLinks : Nat → Decoder (List (UInt16 × String))
  | 0 => pure []
  | count + 1 => do
    let id ← Decoder.readUInt16
    let name ← Decoder.readString
    return (id, name) :: (← readLinks count)

def read : Decoder SymbolClass := do
  let count ← Decoder.readUInt16
  return { symbols := ← readLinks count.toNat }

/-- Writes the links one after the other. -/
def writeLinks : List (UInt16 × String) → Encoder Unit
  | [] => pure ()
  | (id, name) :: rest => do
    Encoder.writeUInt16 id
    Encoder.writeString name
    writeLinks rest

def write (links : SymbolClass) : Encoder Unit := do
  let count := links.symbols.length
  if count ≥ 0x10000 then throw (.rangeOverflow .symbolCount (bitLength count) 16)
  Encoder.writeUInt16 (UInt16.ofNat count)
  writeLinks links.symbols

/-- The payload size: the count, and per link an id, a name and the byte that ends it. -/
def size (links : SymbolClass) : Nat :=
  2 + links.symbols.foldr (fun (_, name) rest => 2 + name.utf8ByteSize + 1 + rest) 0

end SymbolClass

namespace DefineScalingGrid

def read : Decoder DefineScalingGrid := do
  let characterId ← Decoder.readUInt16
  let splitter ← Rect.read
  return { characterId, splitter }

def write (grid : DefineScalingGrid) : Encoder Unit := do
  Encoder.writeUInt16 grid.characterId
  grid.splitter.write

end DefineScalingGrid

namespace DoAbc

/-- Reads flags and name; the rest of the declared length is bytecode. -/
def read (header : RecordHeader) : Decoder DoAbc := do
  let start ← Decoder.position
  let flags ← Decoder.readUInt32
  let name ← Decoder.readString
  let size ← Decoder.ofExcept (header.remaining ((← Decoder.position) - start))
  let abcData ← Decoder.readBytes size
  return { flags, name, abcData }

def write (block : DoAbc) : Encoder Unit := do
  Encoder.writeUInt32 block.flags
  Encoder.writeString block.name
  Encoder.writeBytes block.abcData

end DoAbc

namespace DefineBinaryData

def read (header : RecordHeader) : Decoder DefineBinaryData := do
  let characterId ← Decoder.readUInt16
  let reserved ← Decoder.readUInt32
  let size ← Decoder.ofExcept (header.remaining 6)
  let data ← Decoder.readBytes size
  return { characterId, reserved, data }

def write (blob : DefineBinaryData) : Encoder Unit := do
  Encoder.writeUInt16 blob.characterId
  Encoder.writeUInt32 blob.reserved
  Encoder.writeBytes blob.data

end DefineBinaryData

namespace Tag

/-- Writes the payload of a tag, without its record header. -/
def write : Tag → Encoder Unit
  | .end | .showFrame => pure ()
  | .setBackgroundColor color => Encoder.writeBytes [color.red, color.green, color.blue]
  | .defineBitsJpeg2 image => image.write
  | .scriptLimits limits => do
    Encoder.writeUInt16 limits.maxRecursionDepth
    Encoder.writeUInt16 limits.scriptTimeoutSeconds
  | .fileAttributes attributes => attributes.write
  | .symbolClass links => links.write
  | .metadata xml => Encoder.writeString xml
  | .defineScalingGrid grid => grid.write
  | .doAbc block => block.write
  | .defineBinaryData blob => blob.write
  | .unknown record => Encoder.writeBytes record.data

/-- The payload size of a tag, measured by writing it out. -/
def measure (tag : Tag) : Except CodecError UInt32 :=
  match (do tag.write; Encoder.align : Encoder Unit) {} with
  | .ok _ w => recordLength w.position
  | .error err _ => .error err

/-- The payload size of a tag in bytes. -/
def length (tag : Tag) : Except CodecError UInt32 :=
  match tag with
  | .end | .showFrame => .ok 0
  | .setBackgroundColor _ => .ok 3
  | .defineBitsJpeg2 image => recordLength (2 + image.imageData.length)
  | .scriptLimits _ | .fileAttributes _ => .ok 4
  | .symbolClass links => recordLength links.size
  | .metadata xml => recordLength (xml.utf8ByteSize + 1)
  | .defineScalingGrid _ => tag.measure
  | .doAbc block => recordLength (4 + block.name.utf8ByteSize + 1 + block.abcData.length)
  | .defineBinaryData blob => recordLength (6 + blob.data.length)
  | .unknown record => recordLength record.data.length

/-- Reads a payload of a known kind. -/
def readKind (header : RecordHeader) : TagKind → Decoder Tag
  | .end => pure .end
  | .showFrame => pure .showFrame
  | .setBackgroundColor => do
    let red ← Decoder.readUInt8
    let green ← Decoder.readUInt8
    let blue ← Decoder.readUInt8
    return .setBackgroundColor { red, green, blue }
  | .defineBitsJpeg2 => .defineBitsJpeg2 <$> DefineBitsJpeg2.read header
  | .scriptLimits => do
    let maxRecursionDepth ← Decoder.readUInt16
    let scriptTimeoutSeconds ← Decoder.readUInt16
    return .scriptLimits { maxRecursionDepth, scriptTimeoutSeconds }
  | .fileAttributes => .fileAttributes <$> FileAttributes.read
  | .symbolClass => .symbolClass <$> SymbolClass.read
  | .metadata => .metadata <$> Decoder.readString
  | .defineScalingGrid => .defineScalingGrid <$> DefineScalingGrid.read
  | .doAbc => .doAbc <$> DoAbc.read header
  | .defineBinaryData => .defineBinaryData <$> DefineBinaryData.read header

/-- Reads the payload that follows `header`. A code without a kind is kept byte for byte. -/
def read (header : RecordHeader) : Decoder Tag :=
  match TagKind.ofCode? header.code with
  | some kind => readKind header kind
  | none => do
    return .unknown { code := header.code, data := ← Decoder.readBytes header.length.toNat }

end Tag

end Swf
