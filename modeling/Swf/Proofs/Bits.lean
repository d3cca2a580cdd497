import Swf.Word
import Mathlib.Tactic.Ring
import Mathlib.Data.Nat.Bitwise

/-!
# Bit strings

Bit fields share bytes, so neither a reader nor a writer in the middle of one is at a place in a
byte string. It is at a place in a *bit string*: the bits of the bytes, each byte from its top bit
down. Everything that fields do to bytes is said here about those bit strings, and `packBits` is
the way back, zeros filling the last byte.
-/

namespace Swf

/-- The low `n` bits of `v`, the top one first. -/
def bitsOf (v : Nat) : Nat → List Bool
  | 0 => []
  | n + 1 => v.testBit n :: bitsOf v n

/-- The number that a bit string stands for, its top bit first. -/
def bitsValue (bits : List Bool) : Nat := bits.foldl (fun v b => 2 * v + b.toNat) 0

/-- The bits of a byte string, each byte from the top down. -/
def bitsOfBytes (bytes : List UInt8) : List Bool := bytes.flatMap fun b => bitsOf b.toNat 8

/-- How many zeros fill the byte that the last of `n` bits stands in. -/
def padding (n : Nat) : Nat := (8 - n % 8) % 8

/-- A bit string as bytes, zeros filling the last one. -/
def packBits (bits : List Bool) : List UInt8 :=
  if bits = [] then []
  else UInt8.ofNat (bitsValue ((bits ++ List.replicate 7 false).take 8)) :: packBits (bits.drop 8)
termination_by bits.length
decreasing_by
  rename_i h
  have := List.length_pos_iff.mpr h
  rw [List.length_drop]
  omega

/-! ## Numbers and their bits -/

@[simp] theorem length_bitsOf (v n : Nat) : (bitsOf v n).length = n := by
  induction n with
  | zero => rfl
  | succ n ih => simp [bitsOf, ih]

theorem bitsValue_from (bits : List Bool) (v : Nat) :
    bits.foldl (fun v b => 2 * v + b.toNat) v = v * 2 ^ bits.length + bitsValue bits := by
  unfold bitsValue
  induction bits generalizing v with
  | nil => simp
  | cons b bits ih =>
    rw [List.foldl_cons, List.foldl_cons, ih, ih (2 * 0 + b.toNat), List.length_cons, pow_succ]
    ring

theorem bitsValue_cons (b : Bool) (bits : List Bool) :
    bitsValue (b :: bits) = b.toNat * 2 ^ bits.length + bitsValue bits := by
  rw [bitsValue, List.foldl_cons, bitsValue_from]
  simp

theorem bitsValue_append (bits bits' : List Bool) :
    bitsValue (bits ++ bits') = bitsValue bits * 2 ^ bits'.length + bitsValue bits' := by
  rw [bitsValue, List.foldl_append, bitsValue_from]
  rfl

theorem bitsValue_lt (bits : List Bool) : bitsValue bits < 2 ^ bits.length := by
  induction bits with
  | nil => simp [bitsValue]
  | cons b bits ih =>
    rw [bitsValue_cons, List.length_cons, pow_succ]
    have hb : b.toNat ≤ 1 := b.toNat_le
    have := Nat.mul_le_mul_right (2 ^ bits.length) hb
    omega

/-- The bits of a number say its value. -/
theorem bitsValue_bitsOf (v n : Nat) : bitsValue (bitsOf v n) = v % 2 ^ n := by
  induction n with
  | zero => simp [bitsOf, bitsValue, Nat.mod_one]
  | succ n ih =>
    rw [bitsOf, bitsValue_cons, ih, length_bitsOf, Nat.toNat_testBit, pow_succ,
      Nat.mod_mul (a := 2 ^ n), Nat.mul_comm]
    omega

theorem bitsValue_bitsOf_of_lt {v n : Nat} (h : v < 2 ^ n) : bitsValue (bitsOf v n) = v := by
  rw [bitsValue_bitsOf, Nat.mod_eq_of_lt h]

@[simp] theorem bitsValue_zeros (n : Nat) : bitsValue (List.replicate n false) = 0 := by
  induction n with
  | zero => rfl
  | succ n ih => rw [List.replicate_succ, bitsValue_cons, ih]; simp

theorem bitsValue_inj {bits bits' : List Bool} (hlen : bits.length = bits'.length)
    (h : bitsValue bits = bitsValue bits') : bits = bits' := by
  induction bits generalizing bits' with
  | nil => exact (List.length_eq_zero_iff.mp hlen.symm).symm
  | cons b bits ih =>
    cases bits' with
    | nil => simp at hlen
    | cons b' bits' =>
      have hlen' : bits.length = bits'.length := by simpa using hlen
      rw [bitsValue_cons, bitsValue_cons, ← hlen'] at h
      have hlt := bitsValue_lt bits
      have hlt' := bitsValue_lt bits'
      rw [← hlen'] at hlt'
      -- the top bits must agree, since all bits below them weigh less than one of them
      have hb : b = b' := by
        cases b <;> cases b' <;> simp at h ⊢ <;> omega
      subst hb
      rw [ih hlen' (by omega)]

/-- Bits are recovered from the number that they stand for. -/
theorem bitsOf_bitsValue (bits : List Bool) : bitsOf (bitsValue bits) bits.length = bits :=
  bitsValue_inj (length_bitsOf _ _) (bitsValue_bitsOf_of_lt (bitsValue_lt bits))

theorem bitsOf_zero (n : Nat) : bitsOf 0 n = List.replicate n false := by
  induction n with
  | zero => rfl
  | succ n ih => simp [bitsOf, ih, List.replicate_succ]

/-! ## Byte strings and their bits -/

@[simp] theorem bitsOfBytes_nil : bitsOfBytes [] = [] := rfl

@[simp] theorem bitsOfBytes_append (bytes bytes' : List UInt8) :
    bitsOfBytes (bytes ++ bytes') = bitsOfBytes bytes ++ bitsOfBytes bytes' := by
  simp [bitsOfBytes]

theorem bitsOfBytes_cons (b : UInt8) (bytes : List UInt8) :
    bitsOfBytes (b :: bytes) = bitsOf b.toNat 8 ++ bitsOfBytes bytes := rfl

@[simp] theorem length_bitsOfBytes (bytes : List UInt8) :
    (bitsOfBytes bytes).length = 8 * bytes.length := by
  induction bytes with
  | nil => rfl
  | cons b bytes ih => simp [bitsOfBytes_cons, ih]; omega

theorem bitsOfBytes_inj {bytes bytes' : List UInt8} (h : bitsOfBytes bytes = bitsOfBytes bytes') :
    bytes = bytes' := by
  induction bytes generalizing bytes' with
  | nil =>
    have := congrArg List.length h
    simp at this
    exact this.symm ▸ rfl
  | cons b bytes ih =>
    cases bytes' with
    | nil => simp [bitsOfBytes_cons, bitsOf] at h
    | cons b' bytes' =>
      rw [bitsOfBytes_cons, bitsOfBytes_cons] at h
      obtain ⟨hb, hbytes⟩ := List.append_inj h (by simp)
      have hv := congrArg bitsValue hb
      rw [bitsValue_bitsOf_of_lt b.toNat_lt, bitsValue_bitsOf_of_lt b'.toNat_lt] at hv
      rw [UInt8.toNat_inj.mp hv, ih hbytes]

/-! ## Packing -/

theorem padding_lt (n : Nat) : padding n < 8 := Nat.mod_lt _ (by decide)

theorem padding_eq {n k : Nat} (hk : k < 8) (h : (n + k) % 8 = 0) : k = padding n := by
  unfold padding; omega

/-- Packed bits are the bits, with zeros behind them up to the end of a byte. -/
theorem bitsOfBytes_packBits (bits : List Bool) :
    bitsOfBytes (packBits bits) = bits ++ List.replicate (padding bits.length) false := by
  fun_induction packBits bits with
  | case1 => rfl
  | case2 bits h ih =>
    have hpos := List.length_pos_iff.mpr h
    have hlen : ((bits ++ List.replicate 7 false).take 8).length = 8 := by simp; omega
    have hlt := bitsValue_lt ((bits ++ List.replicate 7 false).take 8)
    rw [hlen] at hlt
    have hhead : bitsOf (UInt8.ofNat (bitsValue ((bits ++ List.replicate 7 false).take 8))).toNat 8
        = (bits ++ List.replicate 7 false).take 8 := by
      rw [UInt8.toNat_ofNat_of_lt' (by simpa using hlt)]
      have hback := bitsOf_bitsValue ((bits ++ List.replicate 7 false).take 8)
      rwa [hlen] at hback
    rw [bitsOfBytes_cons, hhead, ih, List.take_append, List.length_drop]
    by_cases hlong : 8 ≤ bits.length
    · -- a whole byte in front of the rest
      rw [Nat.sub_eq_zero_of_le hlong, List.take_zero, List.append_nil, ← List.append_assoc,
        List.take_append_drop]
      have hpad : padding (bits.length - 8) = padding bits.length := by unfold padding; omega
      rw [hpad]
    · -- the last byte, which is filled up
      rw [List.drop_eq_nil_of_le (by omega), List.take_of_length_le (by omega),
        List.take_replicate]
      have hpad : min (8 - bits.length) 7 = padding bits.length := by unfold padding; omega
      have hnone : padding (bits.length - 8) = 0 := by unfold padding; omega
      simp [hpad, hnone]

theorem length_packBits (bits : List Bool) : (packBits bits).length = (bits.length + 7) / 8 := by
  have h := congrArg List.length (bitsOfBytes_packBits bits)
  simp only [length_bitsOfBytes, List.length_append, List.length_replicate] at h
  unfold padding at h
  omega

/-- Bytes whose bits are given, up to zeros that fill the last byte, are those bits packed. -/
theorem eq_packBits {bytes : List UInt8} {bits : List Bool} {k : Nat} (hk : k < 8)
    (h : bitsOfBytes bytes = bits ++ List.replicate k false) : bytes = packBits bits := by
  have hlen := congrArg List.length h
  simp only [length_bitsOfBytes, List.length_append, List.length_replicate] at hlen
  refine bitsOfBytes_inj ?_
  rw [h, bitsOfBytes_packBits, ← padding_eq (n := bits.length) hk (by omega)]

end Swf
