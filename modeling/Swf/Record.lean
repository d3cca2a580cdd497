import Swf.Tag.Codec

/-!
# Records

A record is a header and a payload of the length that the header declares. A payload is read from
exactly those bytes: one that wants more is a length mismatch, one that wants less has its rest
passed over, so the stream stays in step whatever a record holds. A stream that ends before the
declared length is a truncated record.
-/

namespace Swf

/-- What happens to records whose code has no kind of its own. -/
inductive UnknownTagPolicy where
  /-- They are kept byte for byte. -/
  | preserve
  /-- They are dropped. -/
  | skip
  /-- They are refused. -/
  | error
deriving DecidableEq, Repr

namespace Record

/-- An error inside a payload that starts at `start`, seen from its record. -/
def payloadError (header : RecordHeader) (start : Nat) : CodecError → CodecError
  | .unexpectedEof expected offset =>
    if offset - start = header.length.toNat then
      .lengthMismatch header.code header.length.toNat (header.length.toNat + expected)
    else .truncatedRecord header.code expected offset
  | err => err

/-- Reads the payload of a tag and passes over what its layout leaves. -/
def readPayload (header : RecordHeader) : Decoder Tag := do
  let start ← Decoder.position
  let declared := header.length.toNat
  Decoder.within declared do
    let tag ← Decoder.mapError (payloadError header start) (Tag.read header)
    let consumed := (← Decoder.position) - start
    if consumed < declared then
      Decoder.mapError (.insideRecord header.code) (Decoder.skip (declared - consumed))
    return tag

/-- Reads one record; nothing when the policy drops it. -/
def read (policy : UnknownTagPolicy) : Decoder (Option Tag) := do
  let offset ← Decoder.position
  let header ← RecordHeader.read
  match TagKind.ofCode? header.code, policy with
  | none, .skip =>
    Decoder.mapError (.insideRecord header.code) (Decoder.skip header.length.toNat)
    return none
  | none, .error => throw (.unsupportedTag header.code offset)
  | _, _ => some <$> readPayload header

/-- Writes one record: its header, then as many payload bytes as the tag's length says. -/
def write (tag : Tag) : Encoder Unit := do
  let declared ← Encoder.ofExcept tag.length
  let payload ← Encoder.ofExcept (Writer.collect tag.write)
  if payload.length ≠ declared.toNat then
    throw (.lengthMismatch tag.code declared.toNat payload.length)
  RecordHeader.write { code := tag.code, length := declared } (requiresLongHeader tag.code)
  Encoder.writeBytes payload

end Record

end Swf
