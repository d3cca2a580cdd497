import Swf.Proofs.Field.Offset
import Swf.Proofs.Rect
import Swf.Proofs.RecordHeader

/-!
# Sequences of fields are read back

Any fields may follow each other, bit fields of any width and fields of whole bytes in any mixture.
What is written into an empty sink is read back by the same sequence of reads: each value, nothing
more and nothing less, and wherever no bit is open both sides are at the same offset
(`Field.readAll_of_writeAll`).

A field occupies certain bits, which depend on the number of bits before it, and both ends go by
them (`Field.writesFrom`, `Field.readsFrom`). The rest is an induction on the sequence.
-/

namespace Swf

open Decoder Encoder

/-- A field and the value that it is written with. Bit fields have at most 32 bits. -/
inductive Field where
  | uint8 (v : UInt8)
  | uint16 (v : UInt16)
  | uint32 (v : UInt32)
  | unsigned (bits : Fin 33) (v : UInt32)
  | signed (bits : Fin 33) (v : Int32)
  | bytes (data : List UInt8)
  | string (text : String)
  /-- No value, but zeros up to the next byte. -/
  | align
  | rect (r : Rect)
  | header (h : RecordHeader) (forceLong : Bool)
deriving DecidableEq, Repr

/-- What a reader has to be told of a field. -/
inductive FieldShape where
  | uint8
  | uint16
  | uint32
  | unsigned (bits : Fin 33)
  | signed (bits : Fin 33)
  | bytes (count : Nat)
  | string
  | align
  | rect
  | header
deriving DecidableEq, Repr

/-- What a reader gives for a field. -/
inductive FieldValue where
  | uint8 (v : UInt8)
  | uint16 (v : UInt16)
  | uint32 (v : UInt32)
  | unsigned (v : UInt32)
  | signed (v : Int32)
  | bytes (data : List UInt8)
  | string (text : String)
  | nothing
  | rect (r : Rect)
  | header (h : RecordHeader)
deriving DecidableEq, Repr

/-- Reads a field. -/
def FieldShape.read : FieldShape → Decoder FieldValue
  | .uint8 => .uint8 <$> readUInt8
  | .uint16 => .uint16 <$> readUInt16
  | .uint32 => .uint32 <$> readUInt32
  | .unsigned bits => .unsigned <$> readUnsigned bits
  | .signed bits => .signed <$> readSigned bits
  | .bytes count => .bytes <$> readBytes count
  | .string => .string <$> readString
  | .align => (fun _ => .nothing) <$> Decoder.align
  | .rect => .rect <$> Rect.read
  | .header => .header <$> RecordHeader.read

namespace Field

/-- Writes a field. -/
def write : Field → Encoder Unit
  | .uint8 v => writeUInt8 v
  | .uint16 v => writeUInt16 v
  | .uint32 v => writeUInt32 v
  | .unsigned bits v => writeUnsigned bits v
  | .signed bits v => writeSigned bits v
  | .bytes data => writeBytes data
  | .string text => writeString text
  | .align => Encoder.align
  | .rect r => r.write
  | .header h forceLong => h.write forceLong

def shape : Field → FieldShape
  | .uint8 _ => .uint8
  | .uint16 _ => .uint16
  | .uint32 _ => .uint32
  | .unsigned bits _ => .unsigned bits
  | .signed bits _ => .signed bits
  | .bytes data => .bytes data.length
  | .string _ => .string
  | .align => .align
  | .rect _ => .rect
  | .header _ _ => .header

def value : Field → FieldValue
  | .uint8 v => .uint8 v
  | .uint16 v => .uint16 v
  | .uint32 v => .uint32 v
  | .unsigned _ v => .unsigned v
  | .signed _ v => .signed v
  | .bytes data => .bytes data
  | .string text => .string text
  | .align => .nothing
  | .rect r => .rect r
  | .header h _ => .header h

/-- Writes fields one after the other. -/
def writeAll : List Field → Encoder Unit
  | [] => pure ()
  | field :: fields => do
    field.write
    writeAll fields

/-- Reads fields one after the other. -/
def readAll : List FieldShape → Decoder (List FieldValue)
  | [] => pure []
  | shape :: shapes => do
    let value ← shape.read
    return value :: (← readAll shapes)

/-! ## One field -/

/-- The field has room for its value. -/
def Fits : Field → Prop
  | .unsigned bits v => v.toNat < 2 ^ bits.val
  | .signed bits v => FitsSigned bits v
  | .string text => 0 ∉ utf8 text
  | .rect r => r.numberOfBits ≤ Rect.maxFieldBits
  | .header h _ => h.code.toNat < 1024
  | _ => True

/-- The bits that a field occupies after `n` others. -/
def bits (n : Nat) : Field → List Bool
  | .uint8 v => alignedBits n [v]
  | .uint16 v => alignedBits n (bytesOfUInt16 v)
  | .uint32 v => alignedBits n (bytesOfUInt32 v)
  | .unsigned bits v => bitsOf v.toNat bits
  | .signed bits v => bitsOf (twosComplement bits v.toInt).toNat bits
  | .bytes data => alignedBits n data
  | .string text => alignedBits n (utf8 text ++ [0])
  | .align => gap n
  | .rect r => r.fields ++ gap (n + r.fields.length)
  | .header h forceLong => alignedBits n (h.bytes forceLong)

theorem bits_le (bits : Fin 33) : bits.val ≤ 32 := by omega

/-- Only what fits is written. -/
theorem fits_of_write {field : Field} {w w' : Writer} (h : field.write w = .ok () w') :
    field.Fits := by
  cases field with
  | unsigned bits v =>
    -- each writer checks its value before it writes anything
    by_cases hwide : bitLength v.toNat > bits
    · simp only [write, writeUnsigned, hwide, if_true] at h
      cases h
    · exact bitLength_le_iff.mp (Nat.not_lt.mp hwide)
  | signed bits v =>
    by_cases hfits : FitsSigned bits v
    · exact hfits
    · simp only [write, writeSigned, hfits, if_false] at h
      cases h
  | string text =>
    cases hfind : (utf8 text).findIdx? (· == 0) with
    | some index =>
      simp only [write, writeString_eq, hfind] at h
      cases h
    | none => exact findIdx?_nul_eq_none_iff.mp hfind
  | rect r =>
    by_cases hwide : r.numberOfBits > Rect.maxFieldBits
    · simp only [write, Rect.write, hwide, if_true] at h
      cases h
    · exact Nat.not_lt.mp hwide
  | header header forceLong =>
    by_cases hcode : header.code > RecordHeader.maxCode
    · simp only [write, RecordHeader.write, hcode, if_true] at h
      cases h
    · exact RecordHeader.code_le_iff.mp hcode
  | _ => trivial

/-- **Writing.** A field that fits writes its bits. -/
theorem writesFrom {field : Field} (h : field.Fits) (n : Nat) :
    WritesFrom n field.write (field.bits n) := by
  cases field with
  | uint8 v => exact .of_encodes (Encodes.writeUInt8 v) (alignsFirst_writeBytes _) n
  | uint16 v => exact .of_encodes (Encodes.writeUInt16 v) (alignsFirst_writeBytes _) n
  | uint32 v => exact .of_encodes (Encodes.writeUInt32 v) (alignsFirst_writeBytes _) n
  | bytes data => exact .of_encodes (Encodes.writeBytes data) (alignsFirst_writeBytes _) n
  | unsigned bits v => exact (WritesBits.writeUnsigned h).writesFrom n
  | signed bits v => exact (WritesBits.writeSigned (bits_le bits) h).writesFrom n
  | align => exact WritesFrom.align n
  | string text =>
    have hencodes := Encodes.writeString text
    rw [stringLayout_of_not_mem h] at hencodes
    refine .of_encodes hencodes ?_ n
    rw [writeString_of_not_mem h]
    exact (alignsFirst_writeBytes _).bind _
  | rect r =>
    -- a rectangle goes on inside the open byte and then fills up its last one
    show WritesFrom n r.write _
    rw [Rect.write_eq h]
    exact ((Rect.writesBits_writeFields h).writesFrom n).bind (WritesFrom.align _)
  | header header forceLong =>
    have hencodes := RecordHeader.encodes_write header forceLong
    have hcode := RecordHeader.code_le_iff.mpr h
    rw [RecordHeader.layout, if_neg hcode] at hencodes
    refine .of_encodes hencodes ?_ n
    unfold RecordHeader.write
    simp only [hcode, if_false]
    split
    · exact (alignsFirst_writeBytes _).bind _
    · exact alignsFirst_writeBytes _

/-- **Reading.** A field that fits is read from its bits. -/
theorem readsFrom {field : Field} (h : field.Fits) (n : Nat) :
    ReadsFrom n field.shape.read (field.bits n) field.value := by
  cases field with
  | uint8 v => exact (ReadsFrom.of_reads (fun _ => Reads.readUInt8 v) (fun _ => rfl) n).map _
  | uint16 v => exact (ReadsFrom.of_reads (fun _ => Reads.readUInt16 v) (fun _ => rfl) n).map _
  | uint32 v => exact (ReadsFrom.of_reads (fun _ => Reads.readUInt32 v) (fun _ => rfl) n).map _
  | bytes data => exact (ReadsFrom.of_reads (fun _ => Reads.readBytes data) (fun _ => rfl) n).map _
  | string text => exact (ReadsFrom.of_reads (fun _ => Reads.readString h) (fun _ => rfl) n).map _
  | header header forceLong =>
    exact (ReadsFrom.of_reads (fun _ => RecordHeader.reads_read h) (fun _ => rfl) n).map _
  | unsigned bits v => exact ((ReadsBits.readUnsigned_bitsOf h).readsFrom n).map _
  | signed bits v => exact ((ReadsBits.readSigned (bits_le bits) h).readsFrom n).map _
  | align => exact (ReadsFrom.align n).map _
  | rect r =>
    show ReadsFrom n (FieldValue.rect <$> Rect.read) _ _
    rw [Rect.read_eq]
    refine ReadsFrom.map _ (((Rect.readsBits_readFields h).readsFrom n).bind ?_)
    exact (ReadsFrom.align _).bind_nil (ReadsFrom.pure _ r)

/-! ## All fields -/

/-- The bits that fields occupy one after the other, the first of them after `n` others. -/
def bitsFrom (n : Nat) : List Field → List Bool
  | [] => []
  | field :: fields => field.bits n ++ bitsFrom (n + (field.bits n).length) fields

theorem bitsFrom_append (n : Nat) (before after : List Field) :
    bitsFrom n (before ++ after) =
      bitsFrom n before ++ bitsFrom (n + (bitsFrom n before).length) after := by
  induction before generalizing n with
  | nil => simp [bitsFrom]
  | cons field before ih =>
    simp only [List.cons_append, bitsFrom, ih, List.append_assoc, List.length_append, Nat.add_assoc]

theorem fits_of_writeAll {fields : List Field} {w w' : Writer}
    (h : writeAll fields w = .ok () w') : ∀ field ∈ fields, field.Fits := by
  induction fields generalizing w with
  | nil => simp
  | cons field fields ih =>
    obtain ⟨_, w₁, hfield, hfields⟩ := ok_of_bind h
    simpa using ⟨fits_of_write hfield, ih hfields⟩

theorem writesFrom_writeAll {fields : List Field} (h : ∀ field ∈ fields, field.Fits) (n : Nat) :
    WritesFrom n (writeAll fields) (bitsFrom n fields) := by
  induction fields generalizing n with
  | nil => exact WritesFrom.pure n
  | cons field fields ih =>
    obtain ⟨hfield, hfields⟩ := List.forall_mem_cons.mp h
    exact (writesFrom hfield n).bind (ih hfields _)

theorem readsFrom_readAll {fields : List Field} (h : ∀ field ∈ fields, field.Fits) (n : Nat) :
    ReadsFrom n (readAll (fields.map shape)) (bitsFrom n fields) (fields.map value) := by
  induction fields generalizing n with
  | nil => exact ReadsFrom.pure n []
  | cons field fields ih =>
    obtain ⟨hfield, hfields⟩ := List.forall_mem_cons.mp h
    exact (readsFrom hfield n).bind ((ih hfields _).map (field.value :: ·))

/-- The writer after fields that fit. -/
theorem writeAll_of_fits {fields : List Field} (h : ∀ field ∈ fields, field.Fits) :
    writeAll fields {} = .ok () (Writer.extend {} (bitsFrom 0 fields)) := by
  have hwrite := writesFrom_writeAll h 0 {} [] Writer.atByte_empty rfl
  rwa [Writer.atByte_empty.extend_nil, List.nil_append] at hwrite

theorem collect_of_fits {fields : List Field} (h : ∀ field ∈ fields, field.Fits) :
    Writer.collect (writeAll fields) = .ok (packBits (bitsFrom 0 fields)) := by
  unfold Writer.collect
  rw [bind_of_ok (writeAll_of_fits h), align_extend Writer.atByte_empty]
  simp [Writer.append, Sink.toList]

/-- The reader after fields that fit, of which the bytes may hold more. -/
theorem readAll_of_fits {fields : List Field} (h : ∀ field ∈ fields, field.Fits)
    {bytes : List UInt8} {rest : List Bool}
    (hbytes : bitsOfBytes bytes = bitsFrom 0 fields ++ rest) :
    ∃ r, readAll (fields.map shape) (Reader.ofBytes bytes) = .ok (fields.map value) r ∧
      (Reader.ofBytes bytes).TookBits (bitsFrom 0 fields) r :=
  readsFrom_readAll h 0 (Reader.ofBytes bytes) rest (Source.steady_ofBytes bytes) rfl hbytes

/-- **Whatever fields were written are read back.** If an empty sink takes fields of any kinds in
any order, then the same sequence of reads gives each value from the bytes of the sink and uses
them up. After any number of the fields, the writer has no bit open if and only if the reader has
none, and then both are at the same offset. -/
theorem readAll_of_writeAll {fields : List Field} {w : Writer}
    (h : writeAll fields {} = .ok () w) :
    ∃ bytes, Writer.collect (writeAll fields) = .ok bytes ∧
      (∃ r, readAll (fields.map shape) (Reader.ofBytes bytes) = .ok (fields.map value) r ∧
        r.source.remaining = []) ∧
      ∀ before after, fields = before ++ after →
        ∃ w₁ r₁, writeAll before {} = .ok () w₁ ∧
          readAll (before.map shape) (Reader.ofBytes bytes) = .ok (before.map value) r₁ ∧
          (w₁.bitCount = 0 ↔ r₁.bitCount = 0) ∧ (w₁.bitCount = 0 → w₁.position = r₁.position) := by
  have hfits := fits_of_writeAll h
  have hbytes := bitsOfBytes_packBits (bitsFrom 0 fields)
  refine ⟨packBits (bitsFrom 0 fields), collect_of_fits hfits, ?_, ?_⟩
  · obtain ⟨r, hread, htook⟩ := readAll_of_fits hfits hbytes
    exact ⟨r, hread, remaining_of_tookBits htook⟩
  · rintro before after rfl
    obtain ⟨hbefore, -⟩ := List.forall_mem_append.mp hfits
    have hsplit := bitsFrom_append 0 before after
    -- the bits of these fields stand in front of those of the others
    obtain ⟨r₁, hread, htook⟩ := readAll_of_fits hbefore
      (hbytes.trans (by rw [hsplit, List.append_assoc]))
    have hcount := htook.bitCount (n := 0) rfl
    have hposition := htook.position (n := 0) rfl
    refine ⟨_, r₁, writeAll_of_fits hbefore, hread, ?_, ?_⟩
    · -- the writer has the bits that are open, and the reader those that complete them to a byte
      rw [Writer.bitCount_extend, hcount, padding]
      omega
    · rw [Writer.bitCount_extend, Writer.position_extend]
      intro hwhole
      have hstart : (Reader.ofBytes (packBits (bitsFrom 0 (before ++ after)))).position = 0 := rfl
      have hempty : ({} : Writer).position = 0 := rfl
      omega

/-- A rectangle that begins inside a byte, a field without bits, a string behind an open byte and a
header that has to be long. -/
theorem readAll_of_writeAll_mixed :
    ∃ bytes r,
      Writer.collect (writeAll [.unsigned 3 5, .rect ⟨-1, 2, 0, 1⟩, .signed 0 0, .signed 2 (-2),
        .string "é", .header ⟨1023, 63⟩ false]) = .ok bytes ∧
      readAll [.unsigned 3, .rect, .signed 0, .signed 2, .string, .header]
        (Reader.ofBytes bytes) = .ok [.unsigned 5, .rect ⟨-1, 2, 0, 1⟩, .signed 0, .signed (-2),
          .string "é", .header ⟨1023, 63⟩] r ∧
      r.source.remaining = [] := by
  have hfits : ∀ field ∈ ([.unsigned 3 5, .rect ⟨-1, 2, 0, 1⟩, .signed 0 0, .signed 2 (-2),
      .string "é", .header ⟨1023, 63⟩ false] : List Field), field.Fits := by
    have hstring : 0 ∉ utf8 "é" := by decide +kernel
    simp only [List.forall_mem_cons, Fits]
    exact ⟨by decide, by decide, by decide, by decide, hstring, by decide, List.forall_mem_nil _⟩
  obtain ⟨bytes, hbytes, ⟨r, hread, hrest⟩, -⟩ := readAll_of_writeAll (writeAll_of_fits hfits)
  exact ⟨bytes, r, hbytes, hread, hrest⟩

end Field

end Swf
