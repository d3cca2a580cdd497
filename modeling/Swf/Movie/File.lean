import Swf.Movie.Basic
import Swf.Record.Account
import Swf.Zlib.Body
import Swf.Zlib.Stored

/-!
# Movie files

A file starts with eight bytes: a signature of three letters, the version, and the length of the
whole file with its body inflated. The body follows, plain or compressed as the signature says: the
stage bounds, the frame rate, the frame count and the records.

Offsets count the bytes of the plain form of a file, so both forms of one movie report the same
errors.
-/

namespace Swf.Movie

/-- The letters that start a file with a plain body. -/
def plainSignature : List UInt8 := [0x46, 0x57, 0x53]

/-- The letters that start a file with a compressed body. -/
def compressedSignature : List UInt8 := [0x43, 0x57, 0x53]

/-- The size of the part of a file that is never compressed. -/
def fileHeaderLength : Nat := 8

/-- Whether the body behind a signature is compressed. -/
def compressedOf (signature : List UInt8) : Except CodecError Bool :=
  if signature = plainSignature then .ok false
  else if signature = compressedSignature then .ok true
  else .error (.invalidSignature (signature.getD 0 0) (signature.getD 1 0) (signature.getD 2 0))

/-! ### Reading -/

/-- Reads records up to the one that ends the movie, or up to the declared length of the file. -/
def readTags (policy : UnknownTagPolicy) (fileLength : Nat) : Decoder (List Tag) := fun r =>
  if r.position ≥ fileLength then .ok [] r
  else
    match _h : Record.read policy r with
    | .error err r' => .error err r'
    | .ok (some .end) r' => .ok [] r'
    | .ok tag r' =>
      match readTags policy fileLength r' with
      | .ok tags r'' => .ok (tag.toList ++ tags) r''
      | .error err r'' => .error err r''
termination_by r => r.source.remaining.length
decreasing_by exact Record.remaining_lt_of_read _h

/-- Reads the body of a file. -/
def readBody (policy : UnknownTagPolicy) (compressed : Bool) (version : UInt8) (fileLength : Nat) :
    Decoder Movie := do
  let frameSize ← Rect.read
  let frameRate ← Decoder.readUInt16
  let frameCount ← Decoder.readUInt16
  let tags ← readTags policy fileLength
  let actual ← Decoder.position
  if actual > fileLength then throw (.fileLengthMismatch fileLength actual)
  return { compressed, header := { version, frameSize, frameRate, frameCount }, tags }

/-- Makes the content of a compressed stream the source of what follows. -/
def enterBody (compressed : Bool) : Decoder Unit := modify fun r =>
  Reader.ofSource (if compressed then r.source.inflate else r.source) fileHeaderLength

/-- Reads a file. -/
def decode (policy : UnknownTagPolicy) : Decoder Movie := do
  let compressed ← Decoder.ofExcept (compressedOf (← Decoder.readFully 3))
  let version ← Decoder.readUInt8
  let fileLength ← Decoder.readUInt32
  enterBody compressed
  readBody policy compressed version fileLength.toNat

/-- Reads a file from a source. -/
def read (policy : UnknownTagPolicy) (source : Source) : Except CodecError Movie :=
  match decode policy (.ofSource source 0) with
  | .ok m _ => .ok m
  | .error err _ => .error err

/-- Reads a file that is in memory. -/
def ofBytes (policy : UnknownTagPolicy) (bytes : List UInt8) : Except CodecError Movie :=
  read policy (.ofBytes bytes)

/-! ### Writing -/

/-- Writes the body of a file. -/
def writeBody (m : Movie) : Encoder Unit := do
  m.header.frameSize.write
  Encoder.writeUInt16 m.header.frameRate
  Encoder.writeUInt16 m.header.frameCount
  m.records.forM Record.write

/-- The body of a file and the length of the whole file. Nothing of a movie whose body cannot be
encoded is written. -/
def encodeBody (m : Movie) : Except CodecError (List UInt8 × UInt32) := do
  let body ← Writer.collect m.writeBody
  let fileLength := fileHeaderLength + body.length
  -- The header counts itself, so the longest body is eight bytes short of the field's range.
  if fileLength ≥ 0x100000000 then throw (.rangeOverflow .fileLength (bitLength fileLength) 32)
  return (body, UInt32.ofNat fileLength)

/-- Writes a file: signature, version, length, and then the whole body at once, compressed by
`compress` if the movie is. -/
def writeWith (compress : List UInt8 → List UInt8) (m : Movie) : Encoder Unit := do
  let (body, fileLength) ← Encoder.ofExcept m.encodeBody
  Encoder.writeBytes (if m.compressed then compressedSignature else plainSignature)
  Encoder.writeUInt8 m.header.version
  Encoder.writeUInt32 fileLength
  Encoder.emit (if m.compressed then compress body else body)

/-- The file of a movie whose body is compressed by `compress`. -/
def toBytesWith (compress : List UInt8 → List UInt8) (m : Movie) : Except CodecError (List UInt8) :=
  Writer.collect (m.writeWith compress)

/-- Writes a file. -/
def write (m : Movie) : Encoder Unit := m.writeWith Zlib.compress

/-- The file of a movie. -/
def toBytes (m : Movie) : Except CodecError (List UInt8) := m.toBytesWith Zlib.compress

/-! ### The plain form of a file -/

/-- The file as it would be stored with a plain body. Nothing behind the file header is decoded
but the compression. -/
def uncompressedImage (bytes : List UInt8) : Except CodecError (List UInt8) :=
  match Decoder.readFully fileHeaderLength (.ofBytes bytes) with
  | .error err _ => .error err
  | .ok header r => do
    if ← compressedOf (header.take 3) then
      let body := Zlib.inflate r.source.remaining
      match body.fault with
      | some fault => .error (.io fault)
      | none => return plainSignature ++ header.drop 3 ++ body.content
    else return header ++ r.source.remaining

end Swf.Movie
