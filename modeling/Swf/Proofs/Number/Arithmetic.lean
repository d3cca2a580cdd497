import Swf.Proofs.Number.Integers
import Mathlib.Data.Rat.Cast.Order

/-!
# Arithmetic on integers as doubles

A double that is an integer has the digits of the integer, followed by as many zeros behind the
point as its scale says (`Double.IsInteger`). Arithmetic brings two numbers to the smaller one of
their scales, so it sees the two integers times the same power of two: comparing them compares the
integers (`compare?_of_isInteger`), and a sum below `2 ^ 53` is rounded to itself, because rounding
does not see a common factor of the two parts of a fraction (`add_of_isInteger`).
-/

namespace Swf

/-! ## Common factors -/

theorem scaled_mul_right (num den factor : Nat) (power : Int) :
    scaled (num * factor) (den * factor) power =
      ((scaled num den power).1 * factor, (scaled num den power).2 * factor) := by
  unfold scaled
  split
  · rw [Nat.mul_right_comm]
  · rw [Nat.mul_right_comm]

theorem roundDiv_mul_right (num den : Nat) {factor : Nat} (h : 0 < factor) :
    roundDiv (num * factor) (den * factor) = roundDiv num den := by
  have hlt : ∀ a b : Nat, 2 * (a * factor) < b * factor ↔ 2 * a < b := by
    intro a b
    rw [← Nat.mul_assoc, Nat.mul_lt_mul_right h]
  have hgt : ∀ a b : Nat, 2 * (a * factor) > b * factor ↔ 2 * a > b := by
    intro a b
    rw [gt_iff_lt, ← Nat.mul_assoc, Nat.mul_lt_mul_right h]
  unfold roundDiv
  simp only [Nat.mul_div_mul_right _ _ h, Nat.mul_mod_mul_right, hlt, hgt]

theorem log2_mul_two_pow {n : Nat} (hn : n ≠ 0) (k : Nat) : (n * 2 ^ k).log2 = n.log2 + k := by
  have hle := Nat.log2_self_le hn
  have hlt := Nat.lt_log2_self (n := n)
  rw [Nat.log2_eq_iff (Nat.mul_ne_zero hn (Nat.two_pow_pos k).ne')]
  constructor
  · rw [Nat.pow_add]
    exact Nat.mul_le_mul_right _ hle
  · rw [Nat.add_right_comm, Nat.pow_add]
    exact Nat.mul_lt_mul_of_pos_right hlt (Nat.two_pow_pos k)

namespace BinaryFormat

/-- The power of two at or below a positive integer, whatever power of two it is written over. -/
theorem floorLog_mul_two_pow {n : Nat} (hn : n ≠ 0) (k : Nat) :
    floorLog (n * 2 ^ k) (2 ^ k) = floorLog n 1 := by
  have hguess : ((n * 2 ^ k).log2 : Int) - ((2 ^ k).log2 : Nat) = n.log2 := by
    rw [log2_mul_two_pow hn, Nat.log2_two_pow]
    omega
  -- the numbers of digits give the power itself, which need not be corrected
  have hfits : ¬ n * 2 ^ k < 2 ^ k * 2 ^ n.log2 := by
    rw [Nat.mul_comm, Nat.not_lt]
    exact Nat.mul_le_mul_left _ (Nat.log2_self_le hn)
  rw [floorLog_natural hn]
  unfold floorLog
  simp only [hguess, scaled_neg]
  rw [if_neg hfits]

/-- Rounding does not see how an integer is written as a fraction. -/
theorem round_mul_two_pow (f : BinaryFormat) (negative : Bool) {n : Nat} (hn : n ≠ 0) (k : Nat) :
    f.round negative (n * 2 ^ k) (2 ^ k) = f.round negative n 1 := by
  have hpos := Nat.two_pow_pos k
  have hscaled (power : Int) := scaled_mul_right n 1 (2 ^ k) power
  rw [Nat.one_mul] at hscaled
  unfold round
  rw [if_neg (Nat.mul_ne_zero hn hpos.ne'), if_neg hn]
  simp only [floorLog_mul_two_pow hn, hscaled, roundDiv_mul_right _ _ hpos]

end BinaryFormat

namespace Double

/-! ## Doubles that are integers -/

/-- A double with the digits of an integer, and with some zeros behind the point. Zero has both
signs. -/
structure IsInteger (d : Double) (negative : Bool) (n : Int) : Prop where
  /-- The number of zeros is told by the scale. -/
  exists_value : ∃ places : Nat,
    d.value = .finite negative (n.natAbs * 2 ^ places) (-(places : Int))
  /-- The sign is that of the integer. -/
  signed_eq : signed negative n.natAbs = n

theorem isInteger_ofInt {n : Int} (hlt : n.natAbs < 2 ^ 53) : (ofInt n).IsInteger (n < 0) n := by
  refine ⟨?_, signed_natAbs n⟩
  by_cases hzero : n = 0
  · subst hzero
    exact ⟨1074, by decide +kernel⟩
  · have hlog := (Nat.log2_lt (Int.natAbs_ne_zero.mpr hzero)).mpr hlt
    refine ⟨52 - n.natAbs.log2, ?_⟩
    rw [value_ofInt hzero hlt]
    congr 1
    omega

/-- The negative of an integer. That of zero is the other zero. -/
theorem isInteger_neg_ofInt {n : Int} (hlt : n.natAbs < 2 ^ 53) :
    (ofInt n).neg.IsInteger (!decide (n < 0)) (-n) := by
  by_cases hzero : n = 0
  · subst hzero
    exact ⟨⟨1074, by decide +kernel⟩, rfl⟩
  · have hne := Int.natAbs_ne_zero.mpr hzero
    have hlog := (Nat.log2_lt hne).mpr hlt
    have hneg : (ofInt n).neg = ofValue (.finite (!decide (n < 0))
        (n.natAbs * 2 ^ (52 - n.natAbs.log2)) (n.natAbs.log2 - 52)) := by
      unfold neg
      rw [value_ofInt hzero hlt]
    refine ⟨⟨52 - n.natAbs.log2, ?_⟩, ?_⟩
    · rw [hneg, value_ofValue (normal_natural hne hlt), Int.natAbs_neg]
      congr 1
      omega
    · unfold signed
      by_cases hnegative : n < 0
      · simp only [hnegative, decide_true, Bool.not_true, Bool.false_eq_true, if_false]
        omega
      · simp only [hnegative, decide_false, Bool.not_false, if_true]
        omega

theorem signed_mul (negative : Bool) (n factor : Nat) :
    signed negative (n * factor) = signed negative n * factor := by
  cases negative with
  | false => rfl
  | true => exact (congrArg Neg.neg (Int.natCast_mul n factor)).trans (Int.neg_mul ..).symm

/-- An integer at a scale that is small enough. -/
theorem atScale_of_le {negative : Bool} {n : Int} (hn : signed negative n.natAbs = n)
    {places k : Nat} (hle : places ≤ k) :
    atScale negative (n.natAbs * 2 ^ places) (-(places : Int)) (-(k : Int)) = n * 2 ^ k := by
  have hshift : (-(places : Int) - -(k : Int)).toNat = k - places := by omega
  have hpow : 2 ^ places * 2 ^ (k - places) = 2 ^ k := by
    rw [← Nat.pow_add]
    congr 1
    omega
  unfold atScale
  rw [hshift, Nat.pow_eq, Nat.mul_assoc, hpow, signed_mul, hn]
  norm_cast

/-- What is rounded after integers have been brought to a scale is an integer again. -/
theorem ofScaled_mul_two_pow {negative : Bool} {n : Int} (hzero : n = 0 → negative = false)
    (k : Nat) : ofScaled negative (n * 2 ^ k) (-(k : Int)) = ofInt n := by
  have habs : (n * 2 ^ k).natAbs = n.natAbs * 2 ^ k := by
    rw [Int.natAbs_mul, Int.natAbs_pow]
    rfl
  have hpos : (0 : Int) < 2 ^ k := Int.pow_pos (by decide)
  unfold ofScaled ofInt
  rw [scaled_neg, habs, Nat.one_mul]
  by_cases hn : n = 0
  · obtain rfl := hzero hn
    subst hn
    simp [ofRatio, BinaryFormat.round]
  · have hne : n * 2 ^ k ≠ 0 := Int.mul_ne_zero hn hpos.ne'
    have hsign : n * 2 ^ k < 0 ↔ n < 0 := by
      rw [mul_neg_iff]
      omega
    have hround := BinaryFormat.round_mul_two_pow binary64 (n < 0) (Int.natAbs_ne_zero.mpr hn) k
    simp only [if_neg hne, hsign, ofRatio, hround]

section

variable {a b : Double} {s t : Bool} {x y : Int}

/-- **Sums** of integers are exact. A sum that is zero is the positive zero, unless both parts are
negative ones. -/
theorem add_of_isInteger (ha : a.IsInteger s x) (hb : b.IsInteger t y)
    (hzero : x + y = 0 → (s && t) = false) : a.add b = ofInt (x + y) := by
  obtain ⟨i, hi⟩ := ha.exists_value
  obtain ⟨j, hj⟩ := hb.exists_value
  have hscale : min (-(i : Int)) (-(j : Int)) = -((max i j : Nat) : Int) := by omega
  unfold add
  -- both parts times the same power of two
  simp only [hi, hj, hscale]
  rw [atScale_of_le ha.signed_eq (Nat.le_max_left i j),
    atScale_of_le hb.signed_eq (Nat.le_max_right i j), ← Int.add_mul]
  exact ofScaled_mul_two_pow hzero _

/-- **The order** of doubles that are integers is that of the integers. -/
theorem compare?_of_isInteger (ha : a.IsInteger s x) (hb : b.IsInteger t y) :
    a.compare? b = some (compare x y) := by
  obtain ⟨i, hi⟩ := ha.exists_value
  obtain ⟨j, hj⟩ := hb.exists_value
  have hscale : min (-(i : Int)) (-(j : Int)) = -((max i j : Nat) : Int) := by omega
  have hpos : (0 : Int) < 2 ^ max i j := Int.pow_pos (by decide)
  have hsame : compare (x * 2 ^ max i j) (y * 2 ^ max i j) = compare x y := by
    rcases Int.lt_trichotomy x y with hlt | heq | hgt
    · rw [Int.compare_eq_lt.mpr hlt, Int.compare_eq_lt]
      exact Int.mul_lt_mul_of_pos_right hlt hpos
    · rw [heq, Int.compare_eq_eq.mpr rfl, Int.compare_eq_eq.mpr rfl]
    · rw [Int.compare_eq_gt.mpr hgt, Int.compare_eq_gt]
      exact Int.mul_lt_mul_of_pos_right hgt hpos
  unfold compare?
  simp only [hi, hj, hscale]
  rw [atScale_of_le ha.signed_eq (Nat.le_max_left i j),
    atScale_of_le hb.signed_eq (Nat.le_max_right i j), hsame]

end

/-- The sum of two integers. -/
theorem add_ofInt {x y : Int} (hx : x.natAbs < 2 ^ 53) (hy : y.natAbs < 2 ^ 53) :
    (ofInt x).add (ofInt y) = ofInt (x + y) := by
  refine add_of_isInteger (isInteger_ofInt hx) (isInteger_ofInt hy) fun hsum => ?_
  rw [Bool.and_eq_false_iff, decide_eq_false_iff_not, decide_eq_false_iff_not]
  omega

/-- The difference of two integers. -/
theorem sub_ofInt {x y : Int} (hx : x.natAbs < 2 ^ 53) (hy : y.natAbs < 2 ^ 53) :
    (ofInt x).sub (ofInt y) = ofInt (x - y) := by
  unfold sub
  rw [Int.sub_eq_add_neg]
  refine add_of_isInteger (isInteger_ofInt hx) (isInteger_neg_ofInt hy) fun hsum => ?_
  rw [Bool.and_eq_false_iff, Bool.not_eq_false', decide_eq_false_iff_not, decide_eq_true_iff]
  omega

/-- The order of two integers. -/
theorem compare?_ofInt {x y : Int} (hx : x.natAbs < 2 ^ 53) (hy : y.natAbs < 2 ^ 53) :
    (ofInt x).compare? (ofInt y) = some (compare x y) :=
  compare?_of_isInteger (isInteger_ofInt hx) (isInteger_ofInt hy)

/-! ## The number that a double is -/

/-- The rational number that a double is equal to. What is not finite is equal to none. -/
def toRat? (d : Double) : Option ℚ :=
  match d.value with
  | .finite negative digits scale => some ((signed negative digits : ℤ) * 2 ^ scale)
  | _ => none

theorem toRat?_of_isInteger {d : Double} {negative : Bool} {n : Int} (h : d.IsInteger negative n) :
    d.toRat? = some (n : ℚ) := by
  obtain ⟨places, hvalue⟩ := h.exists_value
  unfold toRat?
  rw [hvalue]
  simp only [signed_mul, h.signed_eq]
  rw [zpow_neg, zpow_natCast]
  push_cast
  rw [mul_assoc, mul_inv_cancel₀ (pow_ne_zero places two_ne_zero), mul_one]

/-- An integer is equal to itself. -/
theorem toRat?_ofInt {n : Int} (hlt : n.natAbs < 2 ^ 53) : (ofInt n).toRat? = some (n : ℚ) :=
  toRat?_of_isInteger (isInteger_ofInt hlt)

/-! ## Integers as words -/

/-- An integer as an unsigned word is itself modulo `2 ^ 32`. -/
theorem toBitVec_toUInt32_ofInt {n : Int} (hlt : n.natAbs < 2 ^ 53) :
    (ofInt n).toUInt32.toBitVec = BitVec.ofInt 32 n := by
  unfold toUInt32
  simp only [truncate?_ofInt hlt]
  apply BitVec.eq_of_toNat_eq
  rw [UInt32.toBitVec_ofNat', BitVec.toNat_ofNat, BitVec.toNat_ofInt]
  omega

/-- And so is an integer as a signed word. -/
theorem toBitVec_toInt32_ofInt {n : Int} (hlt : n.natAbs < 2 ^ 53) :
    (ofInt n).toInt32.toBitVec = BitVec.ofInt 32 n := by
  unfold toInt32
  rw [UInt32.toBitVec_toInt32, toBitVec_toUInt32_ofInt hlt]

end Double

end Swf
