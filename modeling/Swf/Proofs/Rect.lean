import Swf.Proofs.Reader.BitFields
import Swf.Proofs.Writer.Composition
import Swf.Rect

/-!
# Rectangles are read back

A rectangle is written as one bit string, the width of its fields and then the fields, with zeros
up to the next byte; or it is refused, because a bound needs more bits than the width field can
say. The width that the writer works out holds all four bounds, so the reader gets them back.

The width rule counts a bit more than two's complement needs where a bound is the negative of a
power of two. That is why one rectangle can be read but not be written: a bound of `-2^30` fits the
widest field, and the rule asks for one bit more (`overflows_iff_of_bounded`).
-/

namespace Swf.Rect

open Decoder Encoder

/-- The four bounds. -/
def bounds (r : Rect) : List Int32 := [r.minX, r.maxX, r.minY, r.maxY]

/-- The bit string that a rectangle is written as, padding left out. -/
def fields (r : Rect) : List Bool :=
  bitsOf r.numberOfBits widthBits ++
    (bitsOf (twosComplement r.numberOfBits r.minX.toInt).toNat r.numberOfBits ++
      (bitsOf (twosComplement r.numberOfBits r.maxX.toInt).toNat r.numberOfBits ++
        (bitsOf (twosComplement r.numberOfBits r.minY.toInt).toNat r.numberOfBits ++
          bitsOf (twosComplement r.numberOfBits r.maxY.toInt).toNat r.numberOfBits)))

/-- The bytes of a rectangle, or why it has none. -/
def layout (r : Rect) : Layout :=
  if r.numberOfBits > maxFieldBits then
    .error (.rangeOverflow .rectBound r.numberOfBits maxFieldBits)
  else .ok (packBits r.fields)

theorem maxFieldBits_eq : maxFieldBits = 31 := rfl

/-! ## The width holds the bounds -/

theorem numberOfBits_le_iff {r : Rect} {n : Nat} :
    r.numberOfBits ≤ n ↔ ∀ v ∈ r.bounds, countBits v ≤ n := by
  unfold numberOfBits bounds
  simp only [List.mem_cons, List.not_mem_nil, or_false, forall_eq_or_imp, forall_eq]
  omega

theorem countBits_le_numberOfBits {r : Rect} {v : Int32} (h : v ∈ r.bounds) :
    countBits v ≤ r.numberOfBits := numberOfBits_le_iff.mp (Nat.le_refl _) v h

/-- A field of as many bits as the rule counts holds the bound. -/
theorem fitsSigned_of_countBits_le {v : Int32} {n : Nat} (h : countBits v ≤ n) :
    FitsSigned n v := by
  unfold countBits at h
  unfold FitsSigned
  by_cases hv : v = 0
  · subst hv
    have hpos := Nat.two_pow_pos (n - 1)
    by_cases hn : n = 0
    · rw [if_pos hn]
    · rw [if_neg hn, Nat.pow_eq]
      have hzero : (0 : Int32).toInt = 0 := rfl
      rw [hzero]
      omega
  · rw [if_neg hv] at h
    have hn : n ≠ 0 := by omega
    have habs : v.toInt.natAbs < 2 ^ (n - 1) := bitLength_le_iff.mp (by omega)
    rw [if_neg hn, Nat.pow_eq]
    omega

theorem fitsSigned_of_mem {r : Rect} {v : Int32} (h : v ∈ r.bounds) :
    FitsSigned r.numberOfBits v := fitsSigned_of_countBits_le (countBits_le_numberOfBits h)

theorem toNat_numberOfBits {r : Rect} (h : r.numberOfBits ≤ maxFieldBits) :
    (UInt32.ofNat r.numberOfBits).toNat = r.numberOfBits := by
  rw [maxFieldBits_eq] at h
  exact UInt32.toNat_ofNat_of_lt' (by simp only [UInt32.size]; omega)

/-- The width itself fits the field that says it. -/
theorem numberOfBits_lt {r : Rect} (h : r.numberOfBits ≤ maxFieldBits) :
    (UInt32.ofNat r.numberOfBits).toNat < 2 ^ widthBits := by
  rw [toNat_numberOfBits h]
  rw [maxFieldBits_eq] at h
  show r.numberOfBits < 32
  omega

/-! ## Writing -/

/-- Writes the width and the four bounds. -/
def writeFields (r : Rect) : Encoder Unit := do
  writeUnsigned widthBits (UInt32.ofNat r.numberOfBits)
  writeSigned r.numberOfBits r.minX
  writeSigned r.numberOfBits r.maxX
  writeSigned r.numberOfBits r.minY
  writeSigned r.numberOfBits r.maxY

theorem write_eq {r : Rect} (h : r.numberOfBits ≤ maxFieldBits) :
    r.write = r.writeFields >>= fun _ => align := by
  have hwide : ¬ r.numberOfBits > maxFieldBits := Nat.not_lt.mpr h
  unfold Rect.write writeFields
  simp only [hwide, if_false, bind_assoc]

theorem writesBits_writeFields {r : Rect} (h : r.numberOfBits ≤ maxFieldBits) :
    WritesBits r.writeFields r.fields := by
  have h32 : r.numberOfBits ≤ 32 := Nat.le_trans h (by decide)
  have hbound : ∀ v ∈ r.bounds, WritesBits (writeSigned r.numberOfBits v)
      (bitsOf (twosComplement r.numberOfBits v.toInt).toNat r.numberOfBits) :=
    fun v hv => WritesBits.writeSigned h32 (fitsSigned_of_mem hv)
  have hall := (WritesBits.writeUnsigned (numberOfBits_lt h)).bind
    ((hbound r.minX (by simp [bounds])).bind ((hbound r.maxX (by simp [bounds])).bind
      ((hbound r.minY (by simp [bounds])).bind (hbound r.maxY (by simp [bounds])))))
  rwa [toNat_numberOfBits h] at hall

/-- A rectangle that is not too wide is composed of fields that have room for its bounds. -/
theorem closed_write {P : Encoder Unit → Prop} (hP : Encoder.Closed P) {r : Rect}
    (h : r.numberOfBits ≤ maxFieldBits) : P r.write := by
  have h32 : r.numberOfBits ≤ 32 := Nat.le_trans h (by decide)
  have hbound : ∀ v ∈ r.bounds, P (writeSigned r.numberOfBits v) :=
    fun v hv => hP.writeSigned h32 (fitsSigned_of_mem hv)
  rw [write_eq h]
  refine hP.bind ?_ hP.align
  exact hP.bind (hP.writeUnsigned (numberOfBits_lt h)) (hP.bind (hbound r.minX (by simp [bounds]))
    (hP.bind (hbound r.maxX (by simp [bounds])) (hP.bind (hbound r.minY (by simp [bounds]))
      (hbound r.maxY (by simp [bounds])))))

theorem looksFirst_write (r : Rect) : LooksFirst r.write := by
  by_cases hwide : r.numberOfBits > maxFieldBits
  · unfold Rect.write
    simp only [hwide, if_true]
    exact LooksFirst.throw_bind _ _
  · exact .inr fun _ hP => closed_write hP (Nat.not_lt.mp hwide)

theorem encodes_write (r : Rect) : Encodes r.write r.layout := by
  unfold layout
  by_cases hwide : r.numberOfBits > maxFieldBits
  · rw [if_pos hwide]
    unfold Rect.write
    simp only [hwide, if_true]
    exact Encodes.throw _
  · rw [if_neg hwide, write_eq (Nat.not_lt.mp hwide)]
    exact Encodes.of_packed (writesBits_writeFields (Nat.not_lt.mp hwide))

/-! ## Reading -/

/-- Reads the width and the four bounds. -/
def readFields : Decoder Rect := do
  let bits := (← readUnsigned widthBits).toNat
  let minX ← readSigned bits
  let maxX ← readSigned bits
  let minY ← readSigned bits
  let maxY ← readSigned bits
  return { minX, maxX, minY, maxY }

theorem read_eq : Rect.read = readFields >>= fun r => align >>= fun _ => pure r := by
  unfold Rect.read readFields
  simp only [bind_assoc, pure_bind]

theorem readsBits_readFields {r : Rect} (h : r.numberOfBits ≤ maxFieldBits) :
    ReadsBits readFields r.fields r := by
  have h32 : r.numberOfBits ≤ 32 := Nat.le_trans h (by decide)
  have hbound : ∀ v ∈ r.bounds, ReadsBits (readSigned r.numberOfBits)
      (bitsOf (twosComplement r.numberOfBits v.toInt).toNat r.numberOfBits) v :=
    fun v hv => ReadsBits.readSigned h32 (fitsSigned_of_mem hv)
  have hwidth := ReadsBits.readUnsigned_bitsOf (numberOfBits_lt h)
  rw [toNat_numberOfBits h] at hwidth
  refine hwidth.bind ?_
  simp only [toNat_numberOfBits h]
  refine (hbound r.minX (by simp [bounds])).bind ?_
  refine (hbound r.maxX (by simp [bounds])).bind ?_
  refine (hbound r.minY (by simp [bounds])).bind ?_
  exact (hbound r.maxY (by simp [bounds])).bind_nil (ReadsBits.pure r)

/-- What a rectangle is written as reads as the rectangle. -/
theorem reads_read {p : Nat} {r : Rect} {bytes : List UInt8} (h : r.layout = .ok bytes) :
    Reads p Rect.read bytes r := by
  unfold layout at h
  by_cases hwide : r.numberOfBits > maxFieldBits
  · rw [if_pos hwide] at h
    exact absurd h (by simp)
  · rw [if_neg hwide] at h
    obtain rfl : packBits r.fields = bytes := by simpa using h
    rw [read_eq]
    exact Reads.of_packed (readsBits_readFields (Nat.not_lt.mp hwide))

/-! ## The size of a rectangle -/

theorem length_fields (r : Rect) : r.fields.length = 5 + 4 * r.numberOfBits := by
  unfold fields
  simp only [List.length_append, length_bitsOf, widthBits]
  omega

theorem length_of_layout {r : Rect} {bytes : List UInt8} (h : r.layout = .ok bytes) :
    bytes.length = r.encodedLength := by
  unfold layout at h
  split at h
  · exact absurd h (by simp)
  · obtain rfl : packBits r.fields = bytes := by simpa using h
    rw [length_packBits, length_fields]
    rfl

/-! ## Which rectangles can be written -/

theorem countBits_le_iff {v : Int32} : countBits v ≤ maxFieldBits ↔ v.toInt.natAbs < 2 ^ 30 := by
  rw [maxFieldBits_eq]
  unfold countBits
  by_cases hv : v = 0
  · subst hv
    decide
  · rw [if_neg hv, Nat.succ_le_succ_iff, bitLength_le_iff]

/-- A rectangle has no layout if and only if the magnitude of a bound takes more than 30 bits. -/
theorem layout_eq_error_iff {r : Rect} :
    (∃ err, r.layout = .error err) ↔ ∃ v ∈ r.bounds, 2 ^ 30 ≤ v.toInt.natAbs := by
  have hwide : r.numberOfBits > maxFieldBits ↔ ∃ v ∈ r.bounds, 2 ^ 30 ≤ v.toInt.natAbs := by
    rw [gt_iff_lt, ← Nat.not_le, numberOfBits_le_iff]
    simp only [countBits_le_iff, not_forall, Nat.not_lt, exists_prop]
  unfold layout
  rw [← hwide]
  split <;> simp_all

/-- A bound that the widest field can hold. -/
def Bounded (v : Int32) : Prop := -2 ^ 30 ≤ v.toInt ∧ v.toInt < 2 ^ 30

/-- The one bound that the widest field holds and the width rule has no room for. -/
def lowest : Int32 := -1073741824

theorem countBits_of_bounded {v : Int32} (h : Bounded v) :
    countBits v = 32 ∧ v = lowest ∨ countBits v ≤ 31 ∧ v ≠ lowest := by
  unfold Bounded at h
  have hlow : lowest.toInt = -2 ^ 30 := rfl
  by_cases hv : v = lowest
  · subst hv
    exact .inl ⟨rfl, rfl⟩
  · have hne : v.toInt ≠ -2 ^ 30 := fun he => hv (Int32.toInt_inj.mp (he.trans hlow.symm))
    have hle : bitLength v.toInt.natAbs ≤ 30 := bitLength_le_iff.mpr (by omega)
    refine .inr ⟨?_, hv⟩
    unfold countBits
    split <;> omega

/-- Of the rectangles with such bounds, the writer refuses those with the lowest one, and it
always counts 32 bits. -/
theorem layout_of_bounded {r : Rect} (h : ∀ v ∈ r.bounds, Bounded v) :
    (lowest ∈ r.bounds ∧ r.layout = .error (.rangeOverflow .rectBound 32 31)) ∨
      (lowest ∉ r.bounds ∧ r.layout = .ok (packBits r.fields)) := by
  unfold layout
  rw [maxFieldBits_eq]
  by_cases hlow : lowest ∈ r.bounds
  · have hge : 32 ≤ r.numberOfBits := countBits_le_numberOfBits hlow
    have hle : r.numberOfBits ≤ 32 := numberOfBits_le_iff.mpr fun v hv => by
      rcases countBits_of_bounded (h v hv) with h | h <;> omega
    have hbits : r.numberOfBits = 32 := by omega
    exact .inl ⟨hlow, by rw [hbits]; rfl⟩
  · have hle : r.numberOfBits ≤ 31 := numberOfBits_le_iff.mpr fun v hv => by
      rcases countBits_of_bounded (h v hv) with ⟨_, he⟩ | h
      · exact absurd (he ▸ hv) hlow
      · exact h.1
    exact .inr ⟨hlow, by rw [if_neg (by omega)]⟩

end Swf.Rect
