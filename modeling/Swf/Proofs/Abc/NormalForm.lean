import Swf.Proofs.Abc.Folding

/-!
# Folding leads to a normal form

Folding keeps an expression with all of its parts as soon as the type would change. For expressions
whose binary operations have the type that their operands give them, that never happens: every
operator and conversion fixes the type of its result, apart from sums, and the type of a sum hangs
on types of operands that folding keeps (`Expr.ty_candidate`).

So folding goes all the way. What it gives has no operation on literals left that has a result, and
no conversion that changes nothing (`Expr.Reduced`). Such an expression is folded to itself
(`Expr.fold_eq_self`).
-/

namespace Swf.Abc

/-! ## Types of results -/

theorem UnaryOp.ty_of_eval? {op : UnaryOp} {operand value : Constant}
    (h : op.eval? operand = some value) : value.ty = op.resultTy := by
  cases op with
  | typeOf | not => cases h; rfl
  | negate | increment | decrement | bitNot =>
    obtain ⟨a, -, h⟩ := Option.bind_eq_some_iff.mp h
    cases h
    rfl

/-- A sum is made at its type only. -/
theorem BinaryOp.ty_of_sum? {ty : Ty} {lhs rhs value : Constant}
    (h : sum? ty lhs rhs = some value) : value.ty = ty := by
  cases ty with
  | string =>
    obtain ⟨a, -, h⟩ := Option.bind_eq_some_iff.mp h
    obtain ⟨b, -, h⟩ := Option.bind_eq_some_iff.mp h
    cases h
    rfl
  | number =>
    obtain ⟨ab, -, h⟩ := Option.bind_eq_some_iff.mp h
    cases h
    rfl
  | any | void | null | boolean | int | uint | object => cases h

theorem BinaryOp.ty_of_eval? {op : BinaryOp} {l r : Ty} {lhs rhs value : Constant}
    (h : op.eval? (op.resultTy l r) lhs rhs = some value) : value.ty = op.resultTy l r := by
  cases op with
  | add => exact ty_of_sum? h
  | _ =>
    obtain ⟨result, -, rfl⟩ := Option.map_eq_some_iff.mp h
    rfl

theorem Conversion.ty_of_eval? {conversion : Conversion} {operand value : Constant}
    (h : conversion.eval? operand = some value) : value.ty = conversion.target := by
  cases conversion with
  | toBoolean => cases h; rfl
  | toObject | toAny => cases h
  | toString | toNumber | toInt | toUInt =>
    obtain ⟨result, -, rfl⟩ := Option.map_eq_some_iff.mp h
    rfl
  | coerceString =>
    cases operand with
    | null | undefined => cases h
    | string | int | uint | boolean => cases h; rfl
    | number number =>
      obtain ⟨text, -, rfl⟩ : ∃ text, Constant.stringOfNumber? number = some text ∧
          .string text = value := Option.map_eq_some_iff.mp h
      rfl

namespace Expr

/-! ## The type never changes -/

/-- A binary operation has the type that its operands give it. A local may have any type. -/
def TypedByOperands : Expr → Prop
  | .binary op lhs rhs ty => ty = op.resultTy lhs.ty rhs.ty
  | _ => True

/-- What an expression is folded to, unless its type is another one. -/
def candidate : Expr → Expr
  | .constant value => .constant value
  | .getLocal index ty => .getLocal index ty
  | .unary op operand => foldUnary op operand.fold
  | .binary op lhs rhs ty => foldBinary op ty lhs.fold rhs.fold
  | .convert operand conversion => foldConvert conversion operand.fold

/-- Folding is the candidate, and where the type would change it falls back on the expression. -/
theorem fold_eq_keepingTy (e : Expr) : e.fold = e.keepingTy e.candidate := by
  cases e with
  | constant | getLocal => exact (if_pos rfl).symm
  | unary | binary | convert => rfl

theorem fold_eq_candidate {e : Expr} (h : e.candidate.ty = e.ty) : e.fold = e.candidate := by
  rw [fold_eq_keepingTy, keepingTy, if_pos h]

theorem ty_foldUnary (op : UnaryOp) (operand : Expr) :
    (foldUnary op operand).ty = op.resultTy := by
  unfold foldUnary
  split
  · next value hvalue =>
    obtain ⟨c, -, hvalue⟩ := Option.bind_eq_some_iff.mp hvalue
    exact UnaryOp.ty_of_eval? hvalue
  · rfl

theorem ty_foldBinary (op : BinaryOp) (lhs rhs : Expr) :
    (foldBinary op (op.resultTy lhs.ty rhs.ty) lhs rhs).ty = op.resultTy lhs.ty rhs.ty := by
  unfold foldBinary
  split
  · next value hvalue =>
    obtain ⟨a, -, hvalue⟩ := Option.bind_eq_some_iff.mp hvalue
    obtain ⟨b, -, hvalue⟩ := Option.bind_eq_some_iff.mp hvalue
    exact BinaryOp.ty_of_eval? hvalue
  · rfl

theorem ty_foldConvert (conversion : Conversion) (operand : Expr) :
    (foldConvert conversion operand).ty = conversion.target := by
  unfold foldConvert
  split
  · split
    · next hconverted => exact Conversion.ty_of_eval? hconverted
    · rfl
  · split
    · next hidentity => exact Runtime.target_of_isIdentity hidentity
    · rfl

/-- **The type stays** without being looked at. -/
theorem ty_candidate {e : Expr} (h : e.TypedByOperands) : e.candidate.ty = e.ty := by
  cases e with
  | constant | getLocal => rfl
  | unary op operand => exact ty_foldUnary op operand.fold
  | convert operand conversion => exact ty_foldConvert conversion operand.fold
  | binary op lhs rhs ty =>
    obtain rfl : ty = op.resultTy lhs.ty rhs.ty := h
    -- the operands are folded already, and their types are what they were
    have hty := ty_foldBinary op lhs.fold rhs.fold
    rwa [ty_fold, ty_fold] at hty

/-! ## Nothing is left to fold -/

/-- No result is known for the operation at the root, and no conversion there is for nothing. -/
def Reduced : Expr → Prop
  | .constant _ | .getLocal .. => True
  | .unary op operand => ∀ c, operand = .constant c → op.eval? c = none
  | .binary op lhs rhs ty =>
    ∀ a b, lhs = .constant a → rhs = .constant b → op.eval? ty a b = none
  | .convert operand conversion =>
    (∀ c, operand = .constant c → conversion.eval? c = none) ∧
      (operand.constant? = none → conversion.isIdentity operand.ty = false)

/-- An expression that is typed by its operands and reduced, at its root. -/
structure Normal (e : Expr) : Prop where
  typed : e.TypedByOperands
  reduced : e.Reduced

theorem normal_foldUnary {op : UnaryOp} {operand : Expr} (h : operand.Everywhere Normal) :
    (foldUnary op operand).Everywhere Normal := by
  unfold foldUnary
  split
  · exact ⟨trivial, trivial⟩
  · next hnone =>
    refine ⟨⟨trivial, fun c hc => ?_⟩, h⟩
    subst hc
    exact hnone

theorem normal_foldBinary {op : BinaryOp} {lhs rhs : Expr} (hl : lhs.Everywhere Normal)
    (hr : rhs.Everywhere Normal) :
    (foldBinary op (op.resultTy lhs.ty rhs.ty) lhs rhs).Everywhere Normal := by
  unfold foldBinary
  split
  · exact ⟨trivial, trivial⟩
  · next hnone =>
    refine ⟨⟨rfl, fun a b ha hb => ?_⟩, hl, hr⟩
    subst ha hb
    exact hnone

theorem normal_foldConvert {conversion : Conversion} {operand : Expr}
    (h : operand.Everywhere Normal) : (foldConvert conversion operand).Everywhere Normal := by
  unfold foldConvert
  split
  · next value hvalue =>
    split
    · exact ⟨trivial, trivial⟩
    · next hnone =>
      refine ⟨⟨trivial, fun c hc => ?_, fun hcomputed => ?_⟩, h⟩
      · subst hc
        cases hvalue
        exact hnone
      · rw [hvalue] at hcomputed
        cases hcomputed
  · next hcomputed =>
    split
    · exact h
    · next hidentity =>
      refine ⟨⟨trivial, fun c hc => ?_, fun _ => Bool.eq_false_iff.mpr hidentity⟩, h⟩
      subst hc
      cases hcomputed

/-- **Folding reduces** an expression and all of its parts. -/
theorem normal_fold {e : Expr} (h : e.Everywhere TypedByOperands) : e.fold.Everywhere Normal := by
  induction e with
  | constant | getLocal => exact ⟨trivial, trivial⟩
  | unary op operand ih =>
    rw [fold_eq_candidate (ty_candidate h.self)]
    exact normal_foldUnary (ih h.2)
  | binary op lhs rhs ty ihl ihr =>
    obtain rfl : ty = op.resultTy lhs.ty rhs.ty := h.self
    rw [fold_eq_candidate (ty_candidate h.self), candidate, ← ty_fold lhs, ← ty_fold rhs]
    exact normal_foldBinary (ihl h.2.1) (ihr h.2.2)
  | convert operand conversion ih =>
    rw [fold_eq_candidate (ty_candidate h.self)]
    exact normal_foldConvert (ih h.2)

/-! ## Folding twice -/

theorem foldUnary_eq {op : UnaryOp} {operand : Expr} (h : (Expr.unary op operand).Reduced) :
    foldUnary op operand = .unary op operand := by
  unfold foldUnary
  split
  · next value hvalue =>
    obtain ⟨c, hc, hvalue⟩ := Option.bind_eq_some_iff.mp hvalue
    rw [h c (eq_constant_of_constant? hc)] at hvalue
    cases hvalue
  · rfl

theorem foldBinary_eq {op : BinaryOp} {lhs rhs : Expr} (h : (ofBinary op lhs rhs).Reduced) :
    foldBinary op (op.resultTy lhs.ty rhs.ty) lhs rhs = ofBinary op lhs rhs := by
  unfold foldBinary
  split
  · next value hvalue =>
    obtain ⟨a, ha, hvalue⟩ := Option.bind_eq_some_iff.mp hvalue
    obtain ⟨b, hb, hvalue⟩ := Option.bind_eq_some_iff.mp hvalue
    rw [h a b (eq_constant_of_constant? ha) (eq_constant_of_constant? hb)] at hvalue
    cases hvalue
  · rfl

theorem foldConvert_eq {conversion : Conversion} {operand : Expr}
    (h : (Expr.convert operand conversion).Reduced) :
    foldConvert conversion operand = .convert operand conversion := by
  obtain ⟨hliteral, hcomputed⟩ := h
  unfold foldConvert
  split
  · next value hvalue => rw [hliteral value (eq_constant_of_constant? hvalue)]
  · next hnone => rw [hcomputed hnone, if_neg Bool.false_ne_true]

/-- **A reduced expression is folded to itself.** -/
theorem fold_eq_self {e : Expr} (h : e.Everywhere Normal) : e.fold = e := by
  induction e with
  | constant | getLocal => rfl
  | unary op operand ih =>
    rw [fold_eq_candidate (ty_candidate h.self.typed), candidate, ih h.2,
      foldUnary_eq h.self.reduced]
  | binary op lhs rhs ty ihl ihr =>
    obtain rfl : ty = op.resultTy lhs.ty rhs.ty := h.self.typed
    rw [fold_eq_candidate (ty_candidate h.self.typed), candidate, ihl h.2.1, ihr h.2.2]
    exact foldBinary_eq h.self.reduced
  | convert operand conversion ih =>
    rw [fold_eq_candidate (ty_candidate h.self.typed), candidate, ih h.2,
      foldConvert_eq h.self.reduced]

/-- **Folding leads to a normal form of the same type.** For an expression whose binary operations
have the type that their operands give them: at no part of it does folding fall back on the
unfolded part for its type. The folded expression has the type that the expression had. Everywhere
in it, no operation stands on literals for which it has a result, and no conversion gives a computed
operand back. Folding it again changes nothing. -/
theorem fold_normal {e : Expr} (h : e.Everywhere TypedByOperands) :
    e.Everywhere (fun s => s.candidate.ty = s.ty ∧ s.fold = s.candidate) ∧
      e.fold.ty = e.ty ∧ e.fold.Everywhere Reduced ∧ e.fold.fold = e.fold := by
  have hnormal : e.fold.Everywhere Normal := normal_fold h
  refine ⟨h.imp fun s hs => ?_, ty_fold e, hnormal.imp fun _ hs => hs.reduced,
    fold_eq_self hnormal⟩
  exact ⟨ty_candidate hs, fold_eq_candidate (ty_candidate hs)⟩

/-- A sum that loses a conversion, next to a sum that becomes a literal. -/
theorem fold_normal_dropped :
    let part : Expr := .ofBinary .add (.getLocal 1 .string) (.unary .typeOf (.constant (.int 3)))
    let literal : Expr := .ofBinary .add (.unary .not (.constant .null)) (.constant (.string "!"))
    let e : Expr := .ofBinary .add (.convert part .coerceString) (.convert literal .toString)
    e.Everywhere TypedByOperands ∧
      e.fold = .ofBinary .add
        (.ofBinary .add (.getLocal 1 .string) (.constant (.string "number")))
        (.constant (.string "true!")) ∧
      e.Everywhere (fun s => s.candidate.ty = s.ty ∧ s.fold = s.candidate) ∧
      e.fold.ty = .string ∧ e.fold.Everywhere Reduced ∧ e.fold.fold = e.fold := by
  intro part literal e
  have hpart : part.Everywhere TypedByOperands := ⟨rfl, trivial, trivial, trivial⟩
  have htyped : e.Everywhere TypedByOperands :=
    ⟨rfl, ⟨trivial, hpart⟩, trivial, rfl, ⟨trivial, trivial⟩, trivial⟩
  exact ⟨htyped, rfl, fold_normal htyped⟩

end Expr

end Swf.Abc
