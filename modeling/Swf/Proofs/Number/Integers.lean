import Swf.Number.Double
import Mathlib.Algebra.Order.Ring.Nat

/-!
# Integers as doubles

An integer of 32 bits is a double, exactly: it comes back when the double is cut off to an integer.
The argument goes by normal values. A finite value with as many digits as the format has survives
its word (`Double.value_ofValue`), and rounding an integer below `2 ^ 53` only moves it to such a
value (`BinaryFormat.round_natural`).
-/

namespace Swf

/-- Digits and scale of a double that is as large as a normal number. -/
structure Normal (digits : Nat) (scale : Int) : Prop where
  le : 2 ^ 52 ≤ digits
  lt : digits < 2 ^ 53
  minScale_le : -1074 ≤ scale
  le_maxScale : scale ≤ 971

/-! ## Words -/

theorem binary64_signPlace : binary64.signPlace = 2 ^ 63 := by decide

theorem binary64_binade : binary64.binade = 2 ^ 52 := by decide

theorem binary64_minScale : binary64.minScale = -1074 := by decide

/-- The fields of a word, for an exponent that is neither the smallest nor the largest. -/
theorem BinaryFormat.decode_fields {negative : Bool} {exponent fraction : Nat}
    (hpos : 0 < exponent) (hlt : exponent < 2047) (hfraction : fraction < 2 ^ 52) :
    binary64.decode (negative.toNat * 2 ^ 63 + (exponent * 2 ^ 52 + fraction)) =
      .finite negative (2 ^ 52 + fraction) (exponent - 1075) := by
  have hsign : negative.toNat < 2 := Bool.toNat_lt negative
  have hnegative : (negative.toNat * 2 ^ 63 + (exponent * 2 ^ 52 + fraction)) / 2 ^ 63 % 2 =
      negative.toNat := by omega
  have hexponent : (negative.toNat * 2 ^ 63 + (exponent * 2 ^ 52 + fraction)) / 2 ^ 52 % 2 ^ 11 =
      exponent := by omega
  have hfield : (negative.toNat * 2 ^ 63 + (exponent * 2 ^ 52 + fraction)) % 2 ^ 52 =
      fraction := by omega
  have hbool : (negative.toNat == 1) = negative := by cases negative <;> rfl
  have htop : binary64.topExponent = 2047 := by decide
  have hwidth : Nat.pow 2 binary64.exponentBits = 2 ^ 11 := rfl
  unfold decode
  simp only [binary64_signPlace, binary64_binade, binary64_minScale, htop, hwidth, hnegative,
    hexponent, hfield, hbool]
  -- the exponent is neither that of the smallest values nor that of the infinities
  rw [if_neg (by omega), if_neg (by omega)]
  congr 1
  omega

/-- The word of a normal value. -/
theorem BinaryFormat.encode_normal {negative : Bool} {digits : Nat} {scale : Int}
    (h : Normal digits scale) :
    binary64.encode (.finite negative digits scale) =
      negative.toNat * 2 ^ 63 + ((scale + 1075).toNat * 2 ^ 52 + (digits - 2 ^ 52)) := by
  have hscale : scale - -1074 + 1 = scale + 1075 := by omega
  unfold encode
  simp only [binary64_signPlace, binary64_binade, binary64_minScale, hscale]
  rw [if_neg (Nat.not_lt.mpr h.le)]

namespace Double

/-- A normal value survives its word. -/
theorem value_ofValue {negative : Bool} {digits : Nat} {scale : Int} (h : Normal digits scale) :
    (ofValue (.finite negative digits scale)).value = .finite negative digits scale := by
  obtain ⟨hle, hlt, hmin, hmax⟩ := h
  have hsign : negative.toNat < 2 := Bool.toNat_lt negative
  have hword : (UInt64.ofNat (binary64.encode (.finite negative digits scale))).toNat =
      negative.toNat * 2 ^ 63 + ((scale + 1075).toNat * 2 ^ 52 + (digits - 2 ^ 52)) := by
    rw [BinaryFormat.encode_normal ⟨hle, hlt, hmin, hmax⟩]
    exact UInt64.toNat_ofNat_of_lt' (by simp only [UInt64.size]; omega)
  have hdigits : 2 ^ 52 + (digits - 2 ^ 52) = digits := by omega
  have hscale : ((scale + 1075).toNat : Int) - 1075 = scale := by omega
  unfold value ofValue
  rw [hword, BinaryFormat.decode_fields (by omega) (by omega) (by omega), hdigits, hscale]

end Double

/-! ## Rounding -/

theorem scaled_natCast (num den k : Nat) : scaled num den (k : Int) = (num * 2 ^ k, den) := by
  unfold scaled
  rw [if_neg (by omega), Int.natAbs_natCast]
  rfl

theorem scaled_neg (num den k : Nat) : scaled num den (-(k : Int)) = (num, den * 2 ^ k) := by
  cases k with
  | zero => simp [scaled]
  | succ k =>
    unfold scaled
    rw [if_pos (by omega), Int.natAbs_neg, Int.natAbs_natCast]
    rfl

theorem roundDiv_one (n : Nat) : roundDiv n 1 = n := by
  simp [roundDiv, Nat.mod_one]

/-- The power of two at or below a positive integer is told by its number of digits. -/
theorem BinaryFormat.floorLog_natural {n : Nat} (hn : n ≠ 0) : floorLog n 1 = n.log2 := by
  have hle : 2 ^ n.log2 ≤ n := Nat.log2_self_le hn
  have hone : Nat.log2 1 = 0 := rfl
  have hguess : (n.log2 : Int) - (Nat.log2 1 : Nat) = n.log2 := by omega
  unfold floorLog
  simp only [hguess, scaled_neg, Nat.one_mul]
  rw [if_neg (Nat.not_lt.mpr hle)]

/-- An integer with as many digits as the format has is normal. -/
theorem normal_natural {n : Nat} (hn : n ≠ 0) (hlt : n < 2 ^ 53) :
    Normal (n * 2 ^ (52 - n.log2)) (n.log2 - 52) := by
  have hlog : n.log2 < 53 := (Nat.log2_lt hn).mpr hlt
  have hpower : 2 ^ n.log2 * 2 ^ (52 - n.log2) = 2 ^ 52 := by
    rw [← Nat.pow_add]
    congr 1
    omega
  constructor
  · calc 2 ^ 52 = 2 ^ n.log2 * 2 ^ (52 - n.log2) := hpower.symm
      _ ≤ n * 2 ^ (52 - n.log2) := Nat.mul_le_mul_right _ (Nat.log2_self_le hn)
  · calc n * 2 ^ (52 - n.log2) < 2 ^ (n.log2 + 1) * 2 ^ (52 - n.log2) :=
          Nat.mul_lt_mul_of_pos_right Nat.lt_log2_self (Nat.two_pow_pos _)
      _ = 2 ^ 52 * 2 := by rw [Nat.pow_succ, Nat.mul_right_comm, hpower]
      _ = 2 ^ 53 := by omega
  · omega
  · omega

/-- **Rounding** an integer that fits in the digits of the format only moves it up to a normal
value. -/
theorem BinaryFormat.round_natural {negative : Bool} {n : Nat} (hn : n ≠ 0) (hlt : n < 2 ^ 53) :
    binary64.round negative n 1 = .finite negative (n * 2 ^ (52 - n.log2)) (n.log2 - 52) := by
  have hnormal := normal_natural hn hlt
  have hlog : n.log2 < 53 := (Nat.log2_lt hn).mpr hlt
  have hmax : binary64.maxScale = 971 := by decide
  have hscale : max binary64.minScale (floorLog n 1 - (binary64.precision - 1 : Nat)) =
      -((52 - n.log2 : Nat) : Int) := by
    have hprecision : binary64.precision - 1 = 52 := rfl
    rw [floorLog_natural hn, binary64_minScale, hprecision]
    omega
  -- nothing is cut off, so rounding up does not make a digit more
  have hfull : n * 2 ^ (52 - n.log2) ≠ Nat.pow 2 binary64.precision := Nat.ne_of_lt hnormal.lt
  unfold round
  rw [if_neg hn]
  simp only [hscale, Int.neg_neg, scaled_natCast, roundDiv_one, if_neg hfull]
  rw [if_neg (by omega)]
  congr 1
  omega

/-! ## Integers -/

namespace Double

/-- What an integer other than zero is as a double. -/
theorem value_ofInt {n : Int} (hn : n ≠ 0) (hlt : n.natAbs < 2 ^ 53) :
    (ofInt n).value = .finite (n < 0) (n.natAbs * 2 ^ (52 - n.natAbs.log2))
      (n.natAbs.log2 - 52) := by
  have hne : n.natAbs ≠ 0 := Int.natAbs_ne_zero.mpr hn
  unfold ofInt ofRatio
  rw [BinaryFormat.round_natural hne hlt, value_ofValue (normal_natural hne hlt)]

/-- The sign and the magnitude of an integer. -/
theorem signed_natAbs (n : Int) : signed (n < 0) n.natAbs = n := by
  unfold signed
  by_cases hnegative : n < 0
  · rw [if_pos (decide_eq_true hnegative)]
    omega
  · rw [if_neg (by simpa using hnegative)]
    omega

/-- An integer is cut off to itself. -/
theorem truncate?_ofInt {n : Int} (hlt : n.natAbs < 2 ^ 53) : (ofInt n).truncate? = some n := by
  by_cases hzero : n = 0
  · subst hzero
    decide +kernel
  · have hne : n.natAbs ≠ 0 := Int.natAbs_ne_zero.mpr hzero
    have hlog : n.natAbs.log2 < 53 := (Nat.log2_lt hne).mpr hlt
    have hscale : (n.natAbs.log2 : Int) - 52 = -((52 - n.natAbs.log2 : Nat) : Int) := by omega
    unfold truncate?
    simp only [value_ofInt hzero hlt, hscale, scaled_neg, Nat.one_mul,
      Nat.mul_div_cancel _ (Nat.two_pow_pos _), signed_natAbs]

/-- A signed integer of 32 bits survives. -/
theorem toInt32_ofInt (v : Int32) : (ofInt v.toInt).toInt32 = v := by
  have hle := v.le_toInt
  have hlt := v.toInt_lt
  have htruncate := truncate?_ofInt (n := v.toInt) (by omega)
  unfold toInt32 toUInt32
  simp only [htruncate]
  apply Int32.toInt_inj.mp
  have hsize : Int32.size = 0x100000000 := rfl
  have hmod : (((v.toInt % 0x100000000).toNat : Nat) : Int) = v.toInt % (Int32.size : Nat) := by
    rw [hsize]
    omega
  rw [UInt32.toInt32_ofNat', Int32.toInt_ofNat', hmod, Int.emod_bmod]
  exact Int.bmod_eq_of_le (by omega) (by omega)

/-- An unsigned integer of 32 bits survives. -/
theorem toUInt32_ofInt (v : UInt32) : (ofInt v.toNat).toUInt32 = v := by
  have hlt := v.toNat_lt
  have htruncate := truncate?_ofInt (n := v.toNat) (by omega)
  unfold toUInt32
  simp only [htruncate]
  have hmod : ((v.toNat : Int) % 0x100000000).toNat = v.toNat := by omega
  rw [hmod, UInt32.ofNat_toNat]

end Double

end Swf
