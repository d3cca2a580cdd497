import Swf.Proofs.Reader.Fields
import Swf.Proofs.Writer.Composition
import Swf.RecordHeader

/-!
# Record headers are read back

A header has a short form and a long one, and a code that has no room in either is refused. The
first word keeps the code and the length field apart, so the reader gets both back; which form was
written is told by the length field alone.
-/

namespace Swf.RecordHeader

open Decoder Encoder

/-- The bytes of a header in the form that the writer chooses. -/
def bytes (h : RecordHeader) (forceLong : Bool) : List UInt8 :=
  if h.needsLongForm forceLong then
    bytesOfUInt16 ((h.code <<< 6) ||| lengthEscape) ++ bytesOfUInt32 h.length
  else bytesOfUInt16 ((h.code <<< 6) ||| h.length.toUInt16)

/-- The bytes of a header, or why it has none. -/
def layout (h : RecordHeader) (forceLong : Bool) : Layout :=
  if h.code > maxCode then .error (.rangeOverflow .recordCode (bitLength h.code.toNat) 10)
  else .ok (h.bytes forceLong)

theorem length_bytes (h : RecordHeader) (forceLong : Bool) :
    (h.bytes forceLong).length = h.encodedLength forceLong := by
  unfold bytes encodedLength
  split <;> rfl

/-! ## The first word -/

theorem code_le_iff {code : UInt16} : ¬ code > maxCode ↔ code.toNat < 1024 := by
  rw [gt_iff_lt, UInt16.lt_iff_toNat_lt]
  show ¬ 1023 < code.toNat ↔ code.toNat < 1024
  omega

theorem toNat_word {code low : UInt16} (hc : code.toNat < 1024) (hl : low.toNat < 64) :
    ((code <<< 6) ||| low).toNat = 64 * code.toNat + low.toNat := by
  have hshift : (code <<< 6).toNat = 2 ^ 6 * code.toNat := by
    rw [UInt16.toNat_shiftLeft]
    show code.toNat <<< 6 % 2 ^ 16 = _
    rw [Nat.shiftLeft_eq]
    omega
  rw [UInt16.toNat_or, hshift, ← Nat.two_pow_add_eq_or_of_lt (by omega)]

theorem word_and {code low : UInt16} (hc : code.toNat < 1024) (hl : low.toNat < 64) :
    ((code <<< 6) ||| low) &&& lengthEscape = low := by
  apply UInt16.toNat_inj.mp
  rw [UInt16.toNat_and, toNat_word hc hl]
  show (64 * code.toNat + low.toNat) &&& (2 ^ 6 - 1) = low.toNat
  rw [Nat.and_two_pow_sub_one_eq_mod]
  omega

theorem toNat_shiftRight (word : UInt16) : (word >>> 6).toNat = word.toNat / 64 := by
  rw [UInt16.toNat_shiftRight]
  show word.toNat >>> 6 = _
  rw [Nat.shiftRight_eq_div_pow]

theorem word_shiftRight {code low : UInt16} (hc : code.toNat < 1024) (hl : low.toNat < 64) :
    ((code <<< 6) ||| low) >>> 6 = code := by
  apply UInt16.toNat_inj.mp
  rw [toNat_shiftRight, toNat_word hc hl]
  omega

/-! ## Both forms -/

theorem looksFirst_write (h : RecordHeader) (forceLong : Bool) :
    LooksFirst (h.write forceLong) := by
  unfold RecordHeader.write
  by_cases hcode : h.code > maxCode
  · simp only [hcode, if_true]
    split <;> exact LooksFirst.throw_bind _ _
  · simp only [hcode, if_false]
    split
    · exact .inr fun _ hP => hP.bind (hP.writeBytes _) (hP.writeBytes _)
    · exact .inr fun _ hP => hP.writeBytes _

theorem encodes_write (h : RecordHeader) (forceLong : Bool) :
    Encodes (h.write forceLong) (h.layout forceLong) := by
  unfold RecordHeader.write layout bytes
  by_cases hcode : h.code > maxCode
  · rw [if_pos hcode]
    simp only [hcode, if_true]
    exact Encodes.throw _
  · rw [if_neg hcode]
    simp only [hcode, if_false]
    by_cases hlong : h.needsLongForm forceLong
    · rw [if_pos hlong]
      simp only [hlong, if_true]
      exact (Encodes.writeUInt16 _).bind_ok (Encodes.writeUInt32 _)
    · rw [if_neg hlong]
      simp only [hlong]
      exact Encodes.writeUInt16 _

/-- Either form reads as the header. -/
theorem reads_read {p : Nat} {h : RecordHeader} {forceLong : Bool} (hcode : h.code.toNat < 1024) :
    Reads p RecordHeader.read (h.bytes forceLong) h := by
  unfold bytes
  by_cases hlong : h.needsLongForm forceLong
  · -- the length field is all ones, and the length follows
    rw [if_pos hlong]
    refine (Reads.readUInt16 _).bind ?_
    have hescape : lengthEscape.toNat < 64 := by decide
    simp only [word_and hcode hescape, word_shiftRight hcode hescape, if_true]
    exact (Reads.readUInt32 h.length).bind_nil (Reads.pure _ h)
  · -- the length is below all ones
    rw [if_neg hlong]
    unfold needsLongForm at hlong
    rw [Bool.or_eq_true, decide_eq_true_eq, not_or, ge_iff_le, UInt32.not_le,
      UInt32.lt_iff_toNat_lt] at hlong
    have hlen : h.length.toNat < 63 := hlong.2
    have hlow : h.length.toUInt16.toNat = h.length.toNat := by
      rw [UInt32.toNat_toUInt16]
      omega
    have hne : h.length.toUInt16 ≠ lengthEscape := by
      intro he
      have : h.length.toUInt16.toNat = 63 := by rw [he]; rfl
      omega
    have hback : h.length.toUInt16.toUInt32 = h.length := by
      apply UInt32.toNat_inj.mp
      rw [UInt16.toNat_toUInt32, hlow]
    refine (Reads.readUInt16 _).bind_nil ?_
    simp only [word_and hcode (show h.length.toUInt16.toNat < 64 by omega),
      word_shiftRight hcode (show h.length.toUInt16.toNat < 64 by omega), hne, if_false, hback]
    exact (Reads.pure _ h.length).bind_nil (Reads.pure _ h)

end Swf.RecordHeader
