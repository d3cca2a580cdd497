import Swf.Proofs.Bits
import Swf.Writer
import Mathlib.Data.List.Basic

/-!
# Words are read back

What a word is written as gives the word again: whole words as bytes with the low one first, and
signed fields as two's complement in any width that holds them. `bitLength` is what decides whether
a width does.
-/

namespace Swf

/-! ## The number of digits -/

/-- A width holds a number if it has room for all of its digits. -/
theorem bitLength_le_iff {n k : Nat} : bitLength n ≤ k ↔ n < 2 ^ k := by
  unfold bitLength
  split
  · next h => simp [h]
  · next h => rw [Nat.succ_le_iff, Nat.log2_lt h]

/-! ## Bytes -/

theorem littleEndian_bytesOfUInt16 (v : UInt16) : littleEndian (bytesOfUInt16 v) = v.toNat := by
  have := v.toNat_lt
  simp [bytesOfUInt16, littleEndian, Nat.shiftRight_eq_div_pow]
  omega

theorem littleEndian_bytesOfUInt32 (v : UInt32) : littleEndian (bytesOfUInt32 v) = v.toNat := by
  have := v.toNat_lt
  simp [bytesOfUInt32, littleEndian, Nat.shiftRight_eq_div_pow]
  omega

/-- Four bytes are those of the word that they hold. -/
theorem bytesOfUInt32_littleEndian {bytes : List UInt8} (h : bytes.length = 4) :
    bytesOfUInt32 (UInt32.ofNat (littleEndian bytes)) = bytes := by
  obtain ⟨a, b, c, d, rfl⟩ := List.length_eq_four.mp h
  have ha := a.toNat_lt
  have hb := b.toNat_lt
  have hc := c.toNat_lt
  have hd := d.toNat_lt
  simp only [bytesOfUInt32, littleEndian, List.cons.injEq, ← UInt8.toNat_inj]
  simp [Nat.shiftRight_eq_div_pow]
  omega

@[simp] theorem length_bytesOfUInt16 (v : UInt16) : (bytesOfUInt16 v).length = 2 := rfl

@[simp] theorem length_bytesOfUInt32 (v : UInt32) : (bytesOfUInt32 v).length = 4 := rfl

/-! ## Two's complement -/

theorem toNat_twosComplement {bits : Nat} (hbits : bits ≤ 32) (v : Int) :
    (twosComplement bits v).toNat = (v % (2 ^ bits : Nat)).toNat := by
  have hpos : (0 : Int) < (2 ^ bits : Nat) := by exact_mod_cast Nat.two_pow_pos bits
  have hlt := Int.emod_lt_of_pos v hpos
  have hle : 2 ^ bits ≤ 2 ^ 32 := Nat.pow_le_pow_right (by decide) hbits
  unfold twosComplement
  rw [Nat.pow_eq, UInt32.toNat_ofNat_of_lt' (by simp only [UInt32.size]; omega)]

theorem twosComplement_lt {bits : Nat} (hbits : bits ≤ 32) (v : Int) :
    (twosComplement bits v).toNat < 2 ^ bits := by
  have hpos : (0 : Int) < (2 ^ bits : Nat) := by exact_mod_cast Nat.two_pow_pos bits
  have hlt := Int.emod_lt_of_pos v hpos
  rw [toNat_twosComplement hbits]
  omega

/-- A signed field gives back every value that fits into it. -/
theorem signExtend_twosComplement {bits : Nat} (hpos : 0 < bits) (hbits : bits ≤ 32) {v : Int32}
    (h : Encoder.FitsSigned bits v) : signExtend bits (twosComplement bits v.toInt) = v := by
  obtain ⟨k, rfl⟩ : ∃ k, bits = k + 1 := ⟨bits - 1, by omega⟩
  have hraw := toNat_twosComplement hbits v.toInt
  have hdouble : 2 ^ (k + 1) = 2 * 2 ^ k := by rw [pow_succ]; ring
  have hle : 2 ^ k ≤ 2 ^ 31 := Nat.pow_le_pow_right (by decide) (by omega)
  simp only [Encoder.FitsSigned, Nat.pow_eq, Nat.add_sub_cancel, Nat.add_one_ne_zero,
    if_false] at h
  have hv : v = Int32.ofInt v.toInt := (Int32.ofInt_toInt v).symm
  unfold signExtend
  simp only [Nat.pow_eq, Nat.add_sub_cancel, hraw]
  by_cases hneg : v.toInt < 0
  · -- a negative value counts the top bit
    have hmod : v.toInt % (2 ^ (k + 1) : Nat) = v.toInt + (2 ^ (k + 1) : Nat) := by
      rw [← Int.add_emod_right]
      exact Int.emod_eq_of_lt (by omega) (by omega)
    rw [hmod, if_neg (by omega), Int.toNat_of_nonneg (by omega), Int.add_sub_cancel]
    exact hv.symm
  · have hmod : v.toInt % (2 ^ (k + 1) : Nat) = v.toInt := Int.emod_eq_of_lt (by omega) (by omega)
    rw [hmod, if_pos (by omega)]
    conv => rhs; rw [hv]
    rw [← Int.toNat_of_nonneg (Int.not_lt.mp hneg), Int32.ofInt_eq_ofNat]
    simp

/-- A field of `n` bits holds no more than its sign and `n - 1` digits. -/
theorem signExtend_bounds {n : Nat} {raw : UInt32} (hpos : 0 < n) (hn : n ≤ 32)
    (h : raw.toNat < 2 ^ n) :
    -(2 ^ (n - 1) : Nat) ≤ (signExtend n raw).toInt ∧
      (signExtend n raw).toInt < (2 ^ (n - 1) : Nat) := by
  have hdouble : 2 ^ n = 2 * 2 ^ (n - 1) := by
    rw [← pow_succ']
    congr 1
    omega
  have hle : 2 ^ (n - 1) ≤ 2 ^ 31 := Nat.pow_le_pow_right (by decide) (by omega)
  unfold signExtend
  rw [Nat.pow_eq, Nat.pow_eq]
  split
  · have hval : (Int32.ofNat raw.toNat).toInt = raw.toNat :=
      Int32.toInt_ofNat_of_lt (by omega)
    rw [hval]
    omega
  · have hval : (Int32.ofInt (raw.toNat - (2 ^ n : Nat))).toInt = raw.toNat - (2 ^ n : Nat) :=
      Int32.toInt_ofInt_of_le (by omega) (by omega)
    rw [hval]
    omega

end Swf
