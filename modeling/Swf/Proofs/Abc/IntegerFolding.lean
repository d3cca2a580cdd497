import Swf.Proofs.Abc.NormalForm
import Swf.Proofs.Number.Arithmetic
import Mathlib.Data.Int.ModEq

/-!
# Folding integers

Every number is a double while it is folded, integers of 32 bits included: bitwise operators and
shifts bring the doubles back to words, comparisons and sums work on them as they are. None of that
shows (`IntegerLiteral.foldsExactly`). Literals that are signed and unsigned may be mixed, a
comparison is one of integers, a sum is the integer that it should be, and what is done to words is
done to the integers modulo `2 ^ 32`.
-/

namespace Swf.Abc

namespace Expr

/-! ## Operations on literals -/

variable {a b value : Constant}

/-- An operator with a result for its literals is folded to it. -/
theorem fold_ofBinary {op : BinaryOp} (h : op.eval? (op.resultTy a.ty b.ty) a b = some value) :
    (ofBinary op (.constant a) (.constant b)).fold = .constant value := by
  have hty : (ofBinary op (.constant a) (.constant b)).TypedByOperands := rfl
  rw [fold_eq_candidate (ty_candidate hty)]
  show foldBinary op (op.resultTy a.ty b.ty) (.constant a) (.constant b) = .constant value
  unfold foldBinary
  simp only [constant?, Option.bind_eq_bind, Option.bind_some, h]

theorem fold_unary {op : UnaryOp} (h : op.eval? a = some value) :
    (unary op (.constant a)).fold = .constant value := by
  have hty : (unary op (.constant a)).TypedByOperands := trivial
  rw [fold_eq_candidate (ty_candidate hty)]
  show foldUnary op (.constant a) = .constant value
  unfold foldUnary
  simp only [constant?, Option.bind_eq_bind, Option.bind_some, h]

theorem fold_convert {conversion : Conversion} (h : conversion.eval? a = some value) :
    (convert (.constant a) conversion).fold = .constant value := by
  have hty : (convert (.constant a) conversion).TypedByOperands := trivial
  rw [fold_eq_candidate (ty_candidate hty)]
  show foldConvert conversion (.constant a) = .constant value
  unfold foldConvert
  simp only [constant?, h]

end Expr

/-- A literal of 32 bits. -/
inductive IntegerLiteral where
  | int (v : Int32)
  | uint (v : UInt32)
deriving DecidableEq, Repr

namespace IntegerLiteral

/-- The literal of a program. -/
def constant : IntegerLiteral → Constant
  | .int v => .int v
  | .uint v => .uint v

/-- The integer that a literal is. -/
def toInt : IntegerLiteral → Int
  | .int v => v.toInt
  | .uint v => v.toNat

/-- The integer modulo `2 ^ 32`, in two's complement. -/
def word (a : IntegerLiteral) : BitVec 32 := BitVec.ofInt 32 a.toInt

/-- The number of places that a literal shifts by: the integer modulo 32. -/
def places (a : IntegerLiteral) : Nat := (a.toInt % 32).toNat

/-- What is left of an operator on two literals after folding. -/
def folded (op : BinaryOp) (a b : IntegerLiteral) : Expr :=
  (Expr.ofBinary op (.constant a.constant) (.constant b.constant)).fold

/-- What is left of a conversion of a literal after folding. -/
def converted (conversion : Conversion) (a : IntegerLiteral) : Expr :=
  (Expr.convert (.constant a.constant) conversion).fold

/-- Operators and conversions are folded to what they are on integers and on words. -/
structure FoldsExactly (a b : IntegerLiteral) : Prop where
  bitAnd : folded .bitAnd a b = .constant (.int (.ofBitVec (a.word &&& b.word)))
  bitOr : folded .bitOr a b = .constant (.int (.ofBitVec (a.word ||| b.word)))
  bitXor : folded .bitXor a b = .constant (.int (.ofBitVec (a.word ^^^ b.word)))
  shiftLeft : folded .shiftLeft a b = .constant (.int (.ofBitVec (a.word <<< b.places)))
  /-- The sign moves in from the left. -/
  shiftRight :
    folded .shiftRight a b = .constant (.int (.ofBitVec (a.word.sshiftRight b.places)))
  /-- Zeros move in from the left, and the result is unsigned. -/
  shiftRightUnsigned :
    folded .shiftRightUnsigned a b = .constant (.uint (.ofBitVec (a.word >>> b.places)))
  bitNot : (Expr.unary .bitNot (.constant a.constant)).fold =
    .constant (.int (.ofBitVec (~~~a.word)))
  equals : folded .equals a b = .constant (.boolean (a.toInt = b.toInt))
  strictEquals : folded .strictEquals a b = .constant (.boolean (a.toInt = b.toInt))
  lessThan : folded .lessThan a b = .constant (.boolean (a.toInt < b.toInt))
  lessEquals : folded .lessEquals a b = .constant (.boolean (a.toInt ≤ b.toInt))
  greaterThan : folded .greaterThan a b = .constant (.boolean (a.toInt > b.toInt))
  greaterEquals : folded .greaterEquals a b = .constant (.boolean (a.toInt ≥ b.toInt))
  /-- Nothing is rounded. -/
  add : ∃ d : Double, folded .add a b = .constant (.number d) ∧
    d.toRat? = some ((a.toInt + b.toInt : ℤ) : ℚ)
  subtract : ∃ d : Double, folded .subtract a b = .constant (.number d) ∧
    d.toRat? = some ((a.toInt - b.toInt : ℤ) : ℚ)
  /-- The type gives the range. -/
  toInt32 : ∃ v : Int32, converted .toInt a = .constant (.int v) ∧ v.toInt ≡ a.toInt [ZMOD 2 ^ 32]
  toUInt32 : ∃ v : UInt32, converted .toUInt a = .constant (.uint v) ∧
    (v.toNat : Int) ≡ a.toInt [ZMOD 2 ^ 32]

/-! ## Literals as numbers -/

variable (a b : IntegerLiteral)

theorem natAbs_toInt_lt : a.toInt.natAbs < 2 ^ 33 := by
  cases a with
  | int v =>
    have hle := v.le_toInt
    have hlt := v.toInt_lt
    show v.toInt.natAbs < 2 ^ 33
    omega
  | uint v =>
    have hlt := v.toNat_lt
    show (v.toNat : Int).natAbs < 2 ^ 33
    omega

/-- An integer of 32 bits has fewer digits than a double. -/
theorem natAbs_toInt_lt_double : a.toInt.natAbs < 2 ^ 53 :=
  Nat.lt_trans a.natAbs_toInt_lt (by decide)

theorem toNumber?_constant : a.constant.toNumber? = some (Double.ofInt a.toInt) := by
  cases a <;> rfl

theorem isNumeric_ty : a.constant.ty.isNumeric = true := by
  cases a <;> rfl

theorem numbers?_constant :
    Constant.numbers? a.constant b.constant =
      some (Double.ofInt a.toInt, Double.ofInt b.toInt) := by
  unfold Constant.numbers?
  rw [toNumber?_constant, toNumber?_constant]
  rfl

/-! ## Words -/

theorem toInt32_ofInt_toInt : (Double.ofInt a.toInt).toInt32 = .ofBitVec a.word :=
  Int32.toBitVec_inj.mp (Double.toBitVec_toInt32_ofInt a.natAbs_toInt_lt_double)

theorem toUInt32_ofInt_toInt : (Double.ofInt a.toInt).toUInt32 = .ofBitVec a.word :=
  UInt32.toBitVec_inj.mp (Double.toBitVec_toUInt32_ofInt a.natAbs_toInt_lt_double)

theorem integers?_constant :
    BinaryOp.integers? a.constant b.constant =
      some (.ofBitVec a.word, .ofBitVec b.word) := by
  unfold BinaryOp.integers?
  rw [numbers?_constant]
  show some ((Double.ofInt a.toInt).toInt32, (Double.ofInt b.toInt).toInt32) = _
  rw [toInt32_ofInt_toInt, toInt32_ofInt_toInt]

theorem places_lt : a.places < 32 := by
  unfold places
  omega

/-- The low five bits of a literal are the integer modulo 32. -/
theorem word_and_low : (UInt32.ofBitVec a.word &&& 31 : UInt32) = .ofNat a.places := by
  have hlow : (a.toInt % 2 ^ 32).toNat % 2 ^ 5 = (a.toInt % 32).toNat := by omega
  have hlt := a.places_lt
  apply UInt32.toNat_inj.mp
  rw [UInt32.toNat_ofNat_of_lt' (by simp only [UInt32.size]; omega), UInt32.toNat_and]
  show a.word.toNat &&& 2 ^ 5 - 1 = a.places
  rw [Nat.and_two_pow_sub_one_eq_mod]
  unfold word places
  rw [BitVec.toNat_ofInt]
  exact_mod_cast hlow

theorem shift?_constant :
    BinaryOp.shift? a.constant b.constant = some (Double.ofInt a.toInt, .ofNat b.places) := by
  unfold BinaryOp.shift?
  rw [numbers?_constant]
  show some (Double.ofInt a.toInt, (Double.ofInt b.toInt).toUInt32 &&& 31) = _
  rw [toUInt32_ofInt_toInt, word_and_low]

/-- A count below 32 is taken as it is. -/
theorem smod_of_lt {n : Nat} (h : n < 32) : (BitVec.ofNat 32 n).smod 32 = BitVec.ofNat 32 n := by
  have hall : ∀ n : Fin 32, (BitVec.ofNat 32 n).smod 32 = BitVec.ofNat 32 n := by decide
  exact hall ⟨n, h⟩

theorem shiftLeft_places (w : BitVec 32) :
    Int32.ofBitVec w <<< (UInt32.ofNat b.places).toInt32 = .ofBitVec (w <<< b.places) := by
  have hcount : (UInt32.ofNat b.places).toInt32.toBitVec = BitVec.ofNat 32 b.places := rfl
  have hlt := b.places_lt
  apply Int32.toBitVec_inj.mp
  rw [Int32.toBitVec_shiftLeft, hcount, smod_of_lt b.places_lt, BitVec.shiftLeft_eq',
    BitVec.toNat_ofNat, Nat.mod_eq_of_lt (by omega)]
  rfl

theorem shiftRight_places (w : BitVec 32) :
    Int32.ofBitVec w >>> (UInt32.ofNat b.places).toInt32 =
      .ofBitVec (w.sshiftRight b.places) := by
  have hcount : (UInt32.ofNat b.places).toInt32.toBitVec = BitVec.ofNat 32 b.places := rfl
  have hlt := b.places_lt
  apply Int32.toBitVec_inj.mp
  rw [Int32.toBitVec_shiftRight, hcount, smod_of_lt b.places_lt, BitVec.sshiftRight_eq',
    BitVec.toNat_ofNat, Nat.mod_eq_of_lt (by omega)]
  rfl

theorem shiftRightUnsigned_places (w : BitVec 32) :
    UInt32.ofBitVec w >>> UInt32.ofNat b.places = .ofBitVec (w >>> b.places) := by
  have hlt := b.places_lt
  have hcount : ((UInt32.ofNat b.places).toBitVec % 32).toNat = b.places := by
    rw [BitVec.toNat_umod, UInt32.toBitVec_ofNat', BitVec.toNat_ofNat]
    show b.places % 2 ^ 32 % 32 = b.places
    omega
  apply UInt32.toBitVec_inj.mp
  rw [UInt32.toBitVec_shiftRight, BitVec.ushiftRight_eq', hcount]

/-! ## Comparisons -/

theorem equals?_constant (strict : Bool) :
    a.constant.equals? strict b.constant = some (decide (a.toInt = b.toInt)) := by
  have hcompare := Double.compare?_ofInt a.natAbs_toInt_lt_double b.natAbs_toInt_lt_double
  have hiff :
      (some (compare a.toInt b.toInt) == some Ordering.eq) = decide (a.toInt = b.toInt) := by
    rw [Bool.eq_iff_iff, beq_iff_eq, Option.some_inj, Int.compare_eq_eq, decide_eq_true_iff]
  unfold Constant.equals?
  rw [isNumeric_ty, isNumeric_ty, Bool.and_self, if_pos rfl, numbers?_constant]
  show some ((Double.ofInt a.toInt).compare? (Double.ofInt b.toInt) == some .eq) = _
  rw [hcompare, hiff]

/-- Two literals are in one of some orders if the integers are. -/
theorem ordered?_constant {holds : Ordering → Bool} {p : Prop} [Decidable p]
    (h : holds (compare a.toInt b.toInt) = true ↔ p) :
    a.constant.ordered? holds b.constant = some (decide p) := by
  have hcompare := Double.compare?_ofInt a.natAbs_toInt_lt_double b.natAbs_toInt_lt_double
  unfold Constant.ordered?
  rw [isNumeric_ty, isNumeric_ty, Bool.and_self, if_pos rfl, numbers?_constant]
  show some (((Double.ofInt a.toInt).compare? (Double.ofInt b.toInt)).any holds) = _
  rw [hcompare, Option.any_some, Bool.eq_iff_iff.mpr (h.trans decide_eq_true_iff.symm)]

/-! ## Sums -/

theorem sumTy_constant : BinaryOp.sumTy a.constant.ty b.constant.ty = .number := by
  cases a <;> cases b <;> rfl

theorem sum?_constant :
    BinaryOp.sum? .number a.constant b.constant =
      some (.number (.ofInt (a.toInt + b.toInt))) := by
  unfold BinaryOp.sum?
  rw [numbers?_constant]
  show some (Constant.number ((Double.ofInt a.toInt).add (Double.ofInt b.toInt))) = _
  rw [Double.add_ofInt a.natAbs_toInt_lt_double b.natAbs_toInt_lt_double]

/-! ## Conversions -/

theorem toInt_word_modEq : (Int32.ofBitVec a.word).toInt ≡ a.toInt [ZMOD 2 ^ 32] := by
  rw [Int32.toInt_ofBitVec]
  unfold word
  rw [BitVec.toInt_ofInt]
  exact Int.bmod_emod

theorem toNat_word_modEq : ((UInt32.ofBitVec a.word).toNat : Int) ≡ a.toInt [ZMOD 2 ^ 32] := by
  have hword : ((a.toInt % (2 ^ 32 : Nat)).toNat : Int) = a.toInt % 2 ^ 32 := by omega
  show ((BitVec.ofInt 32 a.toInt).toNat : Int) ≡ a.toInt [ZMOD 2 ^ 32]
  rw [BitVec.toNat_ofInt, hword]
  exact Int.mod_modEq ..

/-! ## Folding

What an operator does with its literals it does with the numbers, the words and the counts of places
that they have become. -/

variable {a b} {op : BinaryOp}

theorem folded_integers (f : Int32 → Int32 → Constant)
    (hop : ∀ ty lhs rhs, op.eval? ty lhs rhs =
      (BinaryOp.integers? lhs rhs).map fun (v, w) => f v w) :
    folded op a b = .constant (f (.ofBitVec a.word) (.ofBitVec b.word)) := by
  refine Expr.fold_ofBinary ?_
  rw [hop, integers?_constant]
  rfl

theorem folded_shift (f : Double → UInt32 → Constant)
    (hop : ∀ ty lhs rhs, op.eval? ty lhs rhs =
      (BinaryOp.shift? lhs rhs).map fun (d, n) => f d n) :
    folded op a b = .constant (f (.ofInt a.toInt) (.ofNat b.places)) := by
  refine Expr.fold_ofBinary ?_
  rw [hop, shift?_constant]
  rfl

theorem folded_equals {strict : Bool}
    (hop : ∀ ty lhs rhs, op.eval? ty lhs rhs = (lhs.equals? strict rhs).map .boolean) :
    folded op a b = .constant (.boolean (a.toInt = b.toInt)) := by
  refine Expr.fold_ofBinary ?_
  rw [hop, equals?_constant]
  rfl

theorem folded_ordered {holds : Ordering → Bool} {p : Prop} [Decidable p]
    (hop : ∀ ty lhs rhs, op.eval? ty lhs rhs = (lhs.ordered? holds rhs).map .boolean)
    (h : holds (compare a.toInt b.toInt) = true ↔ p) :
    folded op a b = .constant (.boolean p) := by
  refine Expr.fold_ofBinary ?_
  rw [hop, ordered?_constant a b h]
  rfl

theorem converted_eq {conversion : Conversion} (f : Double → Constant)
    (hconversion : ∀ operand, conversion.eval? operand = operand.toNumber?.map f) :
    converted conversion a = .constant (f (.ofInt a.toInt)) := by
  refine Expr.fold_convert ?_
  rw [hconversion, toNumber?_constant]
  rfl

theorem folded_add : folded .add a b = .constant (.number (.ofInt (a.toInt + b.toInt))) := by
  refine Expr.fold_ofBinary ?_
  show BinaryOp.sum? (BinaryOp.sumTy a.constant.ty b.constant.ty) _ _ = _
  rw [sumTy_constant, sum?_constant]

theorem folded_subtract :
    folded .subtract a b = .constant (.number (.ofInt (a.toInt - b.toInt))) := by
  refine Expr.fold_ofBinary ?_
  show (Constant.numbers? a.constant b.constant).map _ = _
  rw [numbers?_constant, ← Double.sub_ofInt a.natAbs_toInt_lt_double b.natAbs_toInt_lt_double]
  rfl

theorem fold_bitNot :
    (Expr.unary .bitNot (.constant a.constant)).fold =
      .constant (.int (~~~.ofBitVec a.word)) := by
  refine Expr.fold_unary ?_
  show (a.constant.toNumber? >>= fun v => some (Constant.int (~~~v.toInt32))) = _
  rw [toNumber?_constant, ← toInt32_ofInt_toInt]
  rfl

/-- **Integers are folded exactly**, signed and unsigned ones in any mixture. -/
theorem foldsExactly (a b : IntegerLiteral) : FoldsExactly a b where
  bitAnd := by
    rw [Int32.ofBitVec_and]
    exact folded_integers (fun v w => .int (v &&& w)) fun _ _ _ => rfl
  bitOr := by
    rw [Int32.ofBitVec_or]
    exact folded_integers (fun v w => .int (v ||| w)) fun _ _ _ => rfl
  bitXor := by
    rw [Int32.ofBitVec_xor]
    exact folded_integers (fun v w => .int (v ^^^ w)) fun _ _ _ => rfl
  shiftLeft := by
    rw [← shiftLeft_places, ← toInt32_ofInt_toInt]
    exact folded_shift (fun d n => .int (d.toInt32 <<< n.toInt32)) fun _ _ _ => rfl
  shiftRight := by
    rw [← shiftRight_places, ← toInt32_ofInt_toInt]
    exact folded_shift (fun d n => .int (d.toInt32 >>> n.toInt32)) fun _ _ _ => rfl
  shiftRightUnsigned := by
    rw [← shiftRightUnsigned_places, ← toUInt32_ofInt_toInt]
    exact folded_shift (fun d n => .uint (d.toUInt32 >>> n)) fun _ _ _ => rfl
  bitNot := by
    rw [Int32.ofBitVec_not]
    exact fold_bitNot
  equals := folded_equals fun _ _ _ => rfl
  strictEquals := folded_equals fun _ _ _ => rfl
  lessThan := folded_ordered (fun _ _ _ => rfl) (Ordering.isLT_iff_eq_lt.trans Int.compare_eq_lt)
  lessEquals := folded_ordered (fun _ _ _ => rfl) Int.isLE_compare
  greaterThan := folded_ordered (fun _ _ _ => rfl) (Ordering.isGT_iff_eq_gt.trans Int.compare_eq_gt)
  greaterEquals := folded_ordered (fun _ _ _ => rfl) Int.isGE_compare
  add := by
    -- two integers of 32 bits have a sum of 34 bits at most
    have hle := a.natAbs_toInt_lt
    have hlt := b.natAbs_toInt_lt
    exact ⟨_, folded_add, Double.toRat?_ofInt (by omega)⟩
  subtract := by
    have hle := a.natAbs_toInt_lt
    have hlt := b.natAbs_toInt_lt
    exact ⟨_, folded_subtract, Double.toRat?_ofInt (by omega)⟩
  toInt32 := by
    refine ⟨.ofBitVec a.word, ?_, a.toInt_word_modEq⟩
    rw [← toInt32_ofInt_toInt]
    exact converted_eq (fun d => .int d.toInt32) fun _ => rfl
  toUInt32 := by
    refine ⟨.ofBitVec a.word, ?_, a.toNat_word_modEq⟩
    rw [← toUInt32_ofInt_toInt]
    exact converted_eq (fun d => .uint d.toUInt32) fun _ => rfl

/-- Minus one has 32 digits, and a count of minus four is one of 28. -/
example : folded .shiftRightUnsigned (.int (-1)) (.int (-4)) = .constant (.uint 15) := by
  decide +kernel

end IntegerLiteral

end Swf.Abc
