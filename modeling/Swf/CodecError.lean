import Swf.Fault

/-!
# Errors of the codec

One constructor per cause. Offsets are byte positions in the stream being decoded, counted from
the point where its reader was created; the wording lives in `CodecError.message` alone.
-/

namespace Swf

/-- The fields of the format whose width bounds a value. -/
inductive BoundedField where
  | unsignedBits
  | signedBits
  | rectBound
  | recordCode
  | recordLength
  | symbolCount
  | fileLength
deriving DecidableEq, Repr

/-- The name of a bounded field in error messages. -/
def BoundedField.description : BoundedField → String
  | .unsignedBits => "unsigned bit field"
  | .signedBits => "signed bit field"
  | .rectBound => "rect bound"
  | .recordCode => "record code"
  | .recordLength => "record length"
  | .symbolCount => "symbol count"
  | .fileLength => "file length"

/-- Why a value could not be decoded or encoded. -/
inductive CodecError where
  /-- The stream ended before a declared amount of data was there. -/
  | unexpectedEof (expected offset : Nat)
  /-- A declared record length disagrees with the bytes produced or consumed. -/
  | lengthMismatch (code : UInt16) (declared actual : Nat)
  /-- A record code without a tag kind, under the policy that refuses it. -/
  | unsupportedTag (code : UInt16) (offset : Nat)
  /-- A value needs more bits than its field has. -/
  | rangeOverflow (field : BoundedField) (bits max : Nat)
  /-- The length in the file header disagrees with the decoded content. -/
  | fileLengthMismatch (declared actual : Nat)
  /-- The file starts with neither of the two signatures. -/
  | invalidSignature (first second third : UInt8)
  /-- A string of the stream is not valid UTF-8. -/
  | invalidString (offset : Nat)
  /-- A string to be written holds the byte that would end it. -/
  | interiorNul (index : Nat)
  /-- The stream ended inside a record payload. -/
  | truncatedRecord (code : UInt16) (expected offset : Nat)
  /-- The transport failed. -/
  | io (fault : Fault)
deriving DecidableEq, Repr

namespace CodecError

/-- The wording of an error. -/
def message : CodecError → String
  | unexpectedEof expected offset =>
    s!"unexpected end of stream at offset {offset}: needed {expected} more bytes"
  | lengthMismatch code declared actual =>
    s!"length mismatch for record {code.toNat}: declared {declared} bytes, got {actual}"
  | unsupportedTag code offset =>
    s!"unsupported record type {code.toNat} at offset {offset}"
  | rangeOverflow field bits max =>
    s!"{field.description} needs {bits} bits, format allows at most {max}"
  | fileLengthMismatch declared actual =>
    s!"file length mismatch: header says {declared} bytes, decoded {actual}"
  | invalidSignature first second third =>
    s!"invalid signature [{first.toNat}, {second.toNat}, {third.toNat}]: expected FWS or CWS"
  | invalidString offset => s!"invalid string at offset {offset}"
  | interiorNul index => s!"string contains a NUL byte at index {index}"
  | truncatedRecord code expected offset =>
    s!"record {code.toNat} truncated at offset {offset}: needed {expected} more bytes"
  | io fault => s!"io error: {fault.message}"

/-- Whether an error comes from record framing: data is missing or lengths disagree. -/
def isFraming : CodecError → Bool
  | unexpectedEof .. | truncatedRecord .. | lengthMismatch .. | fileLengthMismatch .. => true
  | _ => false

/-- A stream that ended inside the payload of a record is reported with the record's code. -/
def insideRecord (code : UInt16) : CodecError → CodecError
  | unexpectedEof expected offset => truncatedRecord code expected offset
  | err => err

end CodecError

end Swf
