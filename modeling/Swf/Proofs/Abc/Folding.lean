import Swf.Proofs.Abc.Lift
import Swf.Proofs.Abc.Runtime
import Swf.Proofs.Number.Integers
import Swf.Abc.Fold

/-!
# What folding keeps

Folding an expression keeps its value, with one exception. A conversion is dropped when its operand
has the type that it leads to, so a static type has to be right about the value. That holds for
integers, numbers and truth values (`Runtime.ty_of_eval`). It does not hold for texts: a sum has
the type `String` as soon as one operand has it, yet that operand may be `null` when it runs, and
then the sum is a number. Such a sum loses a `coerce_s` that would have made a text of it.

The exception is exact (`Runtime.everywhere_keeps_iff`): an expression is kept, with all of its
parts, if and only if no `coerce_s` stands on a sum of type `String` that finds no text to add.
-/

namespace Swf.Abc

/-! ## Expressions as they are built -/

namespace Expr

/-- An operation has the type that its operands give it, and a local has none. -/
def AsBuilt : Expr → Prop
  | .getLocal _ ty => ty = .any
  | .binary op lhs rhs ty => ty = op.resultTy lhs.ty rhs.ty
  | _ => True

/-- A folded literal has the type of what it was folded from. -/
theorem ty_of_fold_eq_constant {e : Expr} {value : Constant} (h : e.fold = .constant value) :
    value.ty = e.ty := by
  rw [← ty_fold, h]
  rfl

theorem eq_constant_of_constant? {e : Expr} {value : Constant} (h : e.constant? = some value) :
    e = .constant value := by
  cases e with
  | constant c => rw [Option.some.inj h]
  | getLocal | unary | binary | convert => cases h

end Expr

/-- Lifted blocks are built so. -/
theorem asBuilt_of_lift {pool : Pool} {code : List Op} {b : Block} (h : lift pool code = .ok b) :
    b.Everywhere Expr.AsBuilt :=
  everywhere_of_lift
    { immediate := fun _ => trivial
      pooled := fun _ => trivial
      getLocal := fun _ => rfl
      unary := fun _ _ => trivial
      binary := fun _ _ _ => rfl
      convert := fun _ _ => trivial } h

/-- Types that say what a value is when it runs. -/
def Ty.isExact : Ty → Bool
  | .boolean | .int | .uint | .number => true
  | _ => false

theorem Ty.isExact_of_isNumeric {ty : Ty} (h : ty.isNumeric = true) : ty.isExact = true := by
  cases ty with
  | int | uint | number => rfl
  | any | void | null | boolean | string | object => cases h

/-- A sum of exact type is a number, and a sum of numbers. -/
theorem BinaryOp.isNumeric_of_sumTy {lhs rhs : Ty} (h : (sumTy lhs rhs).isExact = true) :
    sumTy lhs rhs = .number ∧ lhs.isNumeric = true ∧ rhs.isNumeric = true := by
  unfold sumTy at h ⊢
  split at h
  · cases h
  · next hstring =>
    rw [if_neg hstring]
    split at h
    · next hnumeric =>
      obtain ⟨hlhs, hrhs⟩ := Bool.and_eq_true_iff.mp hnumeric
      exact ⟨if_pos hnumeric, hlhs, hrhs⟩
    · cases h

namespace Runtime

variable (R : Runtime) {locals : UInt32 → Constant}

/-! ## Types at run time -/

theorem eval_binary {op : BinaryOp} {lhs rhs : Expr} {ty : Ty} {value : Constant}
    (h : R.eval locals (.binary op lhs rhs ty) = some value) :
    ∃ a b, R.eval locals lhs = some a ∧ R.eval locals rhs = some b ∧ R.binary op a b = value := by
  obtain ⟨a, ha, h⟩ := Option.bind_eq_some_iff.mp h
  obtain ⟨b, hb, h⟩ := Option.map_eq_some_iff.mp h
  exact ⟨a, b, ha, hb, h⟩

/-- **Exact types are right about values.** -/
theorem ty_of_eval {e : Expr} (hbuilt : e.Everywhere Expr.AsBuilt)
    (hexact : e.ty.isExact = true) {value : Constant} (h : R.eval locals e = some value) :
    value.ty = e.ty := by
  induction e generalizing value with
  | constant c => cases h; rfl
  | getLocal index ty => rw [Expr.ty, hbuilt] at hexact; cases hexact
  | unary op operand ih =>
    obtain ⟨a, _, rfl⟩ := Option.map_eq_some_iff.mp h
    cases op <;> rfl
  | binary op lhs rhs ty ihl ihr =>
    obtain ⟨rfl, hlhs, hrhs⟩ := hbuilt
    obtain ⟨a, b, ha, hb, rfl⟩ := R.eval_binary h
    cases op with
    | add =>
      obtain ⟨hnumber, hl, hr⟩ := BinaryOp.isNumeric_of_sumTy hexact
      have hlty : a.ty = lhs.ty := ihl hlhs (Ty.isExact_of_isNumeric hl) ha
      have hrty : b.ty = rhs.ty := ihr hrhs (Ty.isExact_of_isNumeric hr) hb
      -- the operands are numbers, so neither of them is a text when the sum runs
      have htext : ¬ (a.ty = .string ∨ b.ty = .string) := by
        rw [hlty, hrty]
        rintro (hs | hs)
        · rw [hs] at hl; cases hl
        · rw [hs] at hr; cases hr
      simp only [binary, if_neg htext]
      exact hnumber.symm
    | _ => rfl
  | convert operand conversion ih =>
    obtain ⟨a, _, h⟩ := Option.bind_eq_some_iff.mp h
    cases conversion with
    | toString | coerceString | toObject | toAny => cases hexact
    | toInt | toUInt | toNumber | toBoolean => cases h; rfl

/-- A sum is a text if it finds one to add, and only then. -/
theorem ty_add {a b : Constant} :
    (R.binary .add a b).ty = .string ↔ a.ty = .string ∨ b.ty = .string := by
  by_cases htext : a.ty = .string ∨ b.ty = .string
  · simp only [binary, htext, iff_true]
    rfl
  · simp only [binary, htext, iff_false]
    exact fun h => nomatch h

/-- What the exception is about: an expression that is not a `coerce_s` of a sum which has the type
`String` and finds no text to add. -/
def Textual (locals : UInt32 → Constant) : Expr → Prop
  | .convert (.binary .add lhs rhs .string) .coerceString =>
    ∀ a b, R.eval locals lhs = some a → R.eval locals rhs = some b →
      a.ty = .string ∨ b.ty = .string
  | _ => True

/-- Apart from such sums, what has the type `String` is a text or `null` when it runs. -/
theorem text_of_eval {e : Expr} (hbuilt : e.Everywhere Expr.AsBuilt) (hty : e.ty = .string)
    (htextual : R.Textual locals (.convert e .coerceString)) {value : Constant}
    (h : R.eval locals e = some value) : value = .null ∨ value.ty = .string := by
  cases e with
  | constant c => cases h; exact .inr hty
  | getLocal index ty => rw [Expr.ty, hbuilt] at hty; cases hty
  | unary op operand =>
    obtain ⟨a, _, rfl⟩ := Option.map_eq_some_iff.mp h
    cases op with
    | typeOf => exact .inr rfl
    | negate | increment | decrement | not | bitNot => cases hty
  | binary op lhs rhs ty =>
    obtain ⟨a, b, ha, hb, rfl⟩ := R.eval_binary h
    obtain rfl : ty = .string := hty
    obtain ⟨hresult, _⟩ := hbuilt
    cases op with
    | add => exact .inr (R.ty_add.mpr (htextual a b ha hb))
    | _ => cases hresult
  | convert operand conversion =>
    obtain ⟨a, _, h⟩ := Option.bind_eq_some_iff.mp h
    cases conversion with
    | toString => cases h; exact .inr rfl
    | coerceString =>
      cases a with
      | null | undefined => cases h; exact .inl rfl
      | string | int | uint | number | boolean => cases h; exact .inr rfl
    | toInt | toUInt | toNumber | toBoolean | toObject | toAny => cases hty

/-! ## Conversions that are dropped -/

theorem target_of_isIdentity {conversion : Conversion} {ty : Ty}
    (h : conversion.isIdentity ty = true) : ty = conversion.target := by
  simp only [Conversion.isIdentity, Bool.and_eq_true, beq_iff_eq] at h
  exact h.1.1

/-- A conversion to the type of a value gives the value back, if the type is right about it. -/
theorem convert_of_isIdentity {conversion : Conversion} {ty : Ty} {value : Constant}
    (hidentity : conversion.isIdentity ty = true)
    (hexact : ty.isExact = true → value.ty = ty)
    (htext : ty = .string → value = .null ∨ value.ty = .string) :
    R.convert conversion value = some value := by
  obtain rfl := target_of_isIdentity hidentity
  cases conversion with
  | toString | toObject => cases hidentity
  | toAny => rfl
  | toInt =>
    cases value with
    | int v => exact congrArg (fun v => some (Constant.int v)) (Double.toInt32_ofInt v)
    | _ => cases hexact rfl
  | toUInt =>
    cases value with
    | uint v => exact congrArg (fun v => some (Constant.uint v)) (Double.toUInt32_ofInt v)
    | _ => cases hexact rfl
  | toNumber =>
    cases value with
    | number v => rfl
    | _ => cases hexact rfl
  | toBoolean =>
    cases value with
    | boolean v => rfl
    | _ => cases hexact rfl
  | coerceString =>
    rcases htext rfl with rfl | hstring
    · rfl
    · cases value with
      | string v => rfl
      | _ => cases hstring

/-! ## What is kept -/

/-- Folding keeps the value of an expression. -/
def Keeps (locals : UInt32 → Constant) (e : Expr) : Prop :=
  R.eval locals e.fold = R.eval locals e

theorem eval_keepingTy {e folded : Expr} (h : R.eval locals folded = R.eval locals e) :
    R.eval locals (e.keepingTy folded) = R.eval locals e := by
  unfold Expr.keepingTy
  split
  · exact h
  · rfl

/-- The value of an operand that was folded to a literal. -/
theorem Keeps.eval_eq {R : Runtime} {e : Expr} {value : Constant} (h : R.Keeps locals e)
    (hfold : e.fold.constant? = some value) : R.eval locals e = some value := by
  rw [← h, Expr.eq_constant_of_constant? hfold]
  rfl

theorem keeps_unary {op : UnaryOp} {operand : Expr} (h : R.Keeps locals operand) :
    R.Keeps locals (.unary op operand) := by
  refine R.eval_keepingTy ?_
  unfold Expr.foldUnary
  cases hfold : operand.fold.constant? >>= op.eval? with
  | none => simp only [eval, h.symm]
  | some value =>
    obtain ⟨c, hc, hvalue⟩ := Option.bind_eq_some_iff.mp hfold
    simp only [eval, h.eval_eq hc, Option.map_some, R.unary_of_eval? hvalue]

theorem keeps_binary {op : BinaryOp} {lhs rhs : Expr} {ty : Ty}
    (hbuilt : Expr.AsBuilt (.binary op lhs rhs ty)) (hl : R.Keeps locals lhs)
    (hr : R.Keeps locals rhs) : R.Keeps locals (.binary op lhs rhs ty) := by
  obtain rfl : ty = op.resultTy lhs.ty rhs.ty := hbuilt
  refine R.eval_keepingTy ?_
  unfold Expr.foldBinary
  split
  · next value hfold =>
    obtain ⟨a, ha, hfold⟩ := Option.bind_eq_some_iff.mp hfold
    obtain ⟨b, hb, hvalue⟩ := Option.bind_eq_some_iff.mp hfold
    -- folding looks at the types of the operands, running at those of the literals
    rw [← Expr.ty_of_fold_eq_constant (Expr.eq_constant_of_constant? ha),
      ← Expr.ty_of_fold_eq_constant (Expr.eq_constant_of_constant? hb)] at hvalue
    simp only [eval, hl.eval_eq ha, hr.eval_eq hb, Option.bind_some, Option.map_some,
      R.binary_of_eval? hvalue]
  · simp only [Expr.ofBinary, eval, hl.symm, hr.symm]

/-- A conversion that is dropped is kept exactly if it gives every value of its operand back. -/
theorem keeps_convert_iff_of_isIdentity {conversion : Conversion} {operand : Expr}
    (hcomputed : operand.fold.constant? = none)
    (hidentity : conversion.isIdentity operand.ty = true) (h : R.Keeps locals operand) :
    R.Keeps locals (.convert operand conversion) ↔
      ∀ value, R.eval locals operand = some value → R.convert conversion value = some value := by
  have hfolded : Expr.foldConvert conversion operand.fold = operand.fold := by
    unfold Expr.foldConvert
    rw [hcomputed, Expr.ty_fold]
    exact if_pos hidentity
  have hdropped : (Expr.convert operand conversion).fold = operand.fold := by
    show (Expr.convert operand conversion).keepingTy (.foldConvert conversion operand.fold) = _
    unfold Expr.keepingTy
    rw [hfolded, Expr.ty_fold]
    exact if_pos (target_of_isIdentity hidentity)
  unfold Keeps
  rw [hdropped, h, eval]
  cases R.eval locals operand with
  | none => simp
  | some value => simp [eq_comm]

/-- A conversion that is not dropped is kept. -/
theorem keeps_convert {conversion : Conversion} {operand : Expr} (h : R.Keeps locals operand)
    (hstays : operand.fold.constant? ≠ none ∨ conversion.isIdentity operand.ty = false) :
    R.Keeps locals (.convert operand conversion) := by
  refine R.eval_keepingTy ?_
  unfold Expr.foldConvert
  cases hfold : operand.fold.constant? with
  | none =>
    have hidentity := hstays.resolve_left (· hfold)
    simp only [Expr.ty_fold, hidentity]
    exact congrArg (·.bind (R.convert conversion)) h
  | some value =>
    cases hconverted : conversion.eval? value with
    | none =>
      simp only [hconverted]
      exact congrArg (·.bind (R.convert conversion)) h
    | some converted =>
      simp only [hconverted, eval, h.eval_eq hfold, Option.bind_some,
        R.convert_of_eval? hconverted]

/-- A conversion that is not dropped is no exception. -/
theorem textual_convert {conversion : Conversion} {operand : Expr} (h : R.Keeps locals operand)
    (hstays : operand.fold.constant? ≠ none ∨ conversion.isIdentity operand.ty = false) :
    R.Textual locals (.convert operand conversion) := by
  unfold Textual
  split
  · next lhs rhs heq =>
    cases heq
    intro a b ha hb
    -- the sum was folded to a literal of its type, so it is a text
    obtain ⟨value, hvalue⟩ := Option.ne_none_iff_exists'.mp (hstays.resolve_right nofun)
    have hsum : R.eval locals (.binary .add lhs rhs .string) = some (R.binary .add a b) := by
      simp only [eval, ha, hb, Option.bind_some, Option.map_some]
    have htext : R.binary .add a b = value :=
      Option.some.inj (hsum.symm.trans (h.eval_eq hvalue))
    rw [← R.ty_add, htext]
    exact Expr.ty_of_fold_eq_constant (Expr.eq_constant_of_constant? hvalue)
  · trivial

/-- **Conversions** are kept, apart from the exception. -/
theorem keeps_convert_iff {conversion : Conversion} {operand : Expr}
    (hbuilt : operand.Everywhere Expr.AsBuilt) (h : R.Keeps locals operand) :
    R.Keeps locals (.convert operand conversion) ↔
      R.Textual locals (.convert operand conversion) := by
  by_cases hstays : operand.fold.constant? ≠ none ∨ conversion.isIdentity operand.ty = false
  · exact iff_of_true (R.keeps_convert h hstays) (R.textual_convert h hstays)
  obtain ⟨hcomputed, hidentity⟩ : operand.fold.constant? = none ∧
      conversion.isIdentity operand.ty = true := by simpa using hstays
  rw [R.keeps_convert_iff_of_isIdentity hcomputed hidentity h]
  constructor
  · intro hgives
    unfold Textual
    split
    · next lhs rhs heq =>
      cases heq
      intro a b ha hb
      by_contra hnone
      have hsum : R.eval locals (.binary .add lhs rhs .string) = some (R.binary .add a b) := by
        simp only [eval, ha, hb, Option.bind_some, Option.map_some]
      have hnumber : R.binary .add a b = .number ((R.toNumber a).add (R.toNumber b)) := by
        simp only [binary, if_neg hnone]
      -- the dropped conversion would have made a text of the number
      have htext := hgives _ hsum
      rw [hnumber] at htext
      cases htext
    · trivial
  · intro htextual value hvalue
    refine convert_of_isIdentity R hidentity (fun hexact => R.ty_of_eval hbuilt hexact hvalue)
      fun hstring => ?_
    obtain rfl : conversion = .coerceString := by
      rw [hstring] at hidentity
      cases conversion <;> first | rfl | cases hidentity
    exact R.text_of_eval hbuilt hstring htextual hvalue

/-- **The exception is exact.** An expression is kept with all of its parts if and only if every sum
of type `String` under a `coerce_s` finds a text to add. -/
theorem everywhere_keeps_iff {e : Expr} (hbuilt : e.Everywhere Expr.AsBuilt) :
    e.Everywhere (R.Keeps locals) ↔ e.Everywhere (R.Textual locals) := by
  induction e with
  | constant value => exact iff_of_true rfl trivial
  | getLocal index ty => exact iff_of_true rfl trivial
  | unary op operand ih =>
    rw [Expr.Everywhere, Expr.Everywhere, ← ih hbuilt.2]
    exact and_congr_left fun h => iff_of_true (R.keeps_unary h.self) trivial
  | binary op lhs rhs ty ihl ihr =>
    rw [Expr.Everywhere, Expr.Everywhere, ← ihl hbuilt.2.1, ← ihr hbuilt.2.2]
    exact and_congr_left fun ⟨hl, hr⟩ =>
      iff_of_true (R.keeps_binary hbuilt.1 hl.self hr.self) trivial
  | convert operand conversion ih =>
    rw [Expr.Everywhere, Expr.Everywhere, ← ih hbuilt.2]
    exact and_congr_left fun h => R.keeps_convert_iff hbuilt.2 h.self

/-! ## Blocks -/

theorem statement_everywhere_keeps_iff {s : Statement} (hbuilt : s.Everywhere Expr.AsBuilt) :
    s.Everywhere (R.Keeps locals) ↔ s.Everywhere (R.Textual locals) := by
  cases s with
  | setLocal index value => exact R.everywhere_keeps_iff hbuilt
  | discard value => exact R.everywhere_keeps_iff hbuilt
  | exit value => exact forall₂_congr fun e he => R.everywhere_keeps_iff (hbuilt e he)

theorem block_everywhere_keeps_iff {b : Block} (hbuilt : b.Everywhere Expr.AsBuilt) :
    b.Everywhere (R.Keeps locals) ↔ b.Everywhere (R.Textual locals) := by
  constructor
  · intro h
    exact ⟨fun s hs => (R.statement_everywhere_keeps_iff (hbuilt.statements s hs)).mp
        (h.statements s hs),
      fun e he => (R.everywhere_keeps_iff (hbuilt.stack e he)).mp (h.stack e he)⟩
  · intro h
    exact ⟨fun s hs => (R.statement_everywhere_keeps_iff (hbuilt.statements s hs)).mpr
        (h.statements s hs),
      fun e he => (R.everywhere_keeps_iff (hbuilt.stack e he)).mpr (h.stack e he)⟩

/-- A statement does the same when its expressions are kept. -/
theorem exec_fold {s : Statement} (h : s.Everywhere (R.Keeps locals)) :
    R.exec locals s.fold = R.exec locals s := by
  cases s with
  | setLocal index value =>
    have hvalue : R.eval locals value.fold = R.eval locals value := h.self
    rw [Statement.fold, exec, exec, hvalue]
  | discard value =>
    have hvalue : R.eval locals value.fold = R.eval locals value := h.self
    rw [Statement.fold, exec, exec, hvalue]
  | exit value =>
    cases value with
    | none => rfl
    | some value =>
      have hvalue : R.eval locals value.fold = R.eval locals value := (h value rfl).self
      rw [Statement.fold, Option.map_some, exec, exec, hvalue]

/-- **What folding keeps.** For expressions as they are built and locals with any values: folding
keeps the value of an expression and of all of its parts if and only if no `coerce_s` stands on a
sum of type `String` that finds no text to add. Under the same condition the statements of a folded
block do what they did, and what it leaves on the stack has the value that it had. -/
theorem eval_fold_iff (locals : UInt32 → Constant) :
    (∀ e : Expr, e.Everywhere Expr.AsBuilt →
      (e.Everywhere (R.Keeps locals) ↔ e.Everywhere (R.Textual locals)) ∧
      (e.Everywhere (R.Textual locals) → R.eval locals e.fold = R.eval locals e)) ∧
    ∀ b : Block, b.Everywhere Expr.AsBuilt →
      (b.Everywhere (R.Keeps locals) ↔ b.Everywhere (R.Textual locals)) ∧
      (b.Everywhere (R.Textual locals) →
        b.fold.statements.map (R.exec locals) = b.statements.map (R.exec locals) ∧
        b.fold.stack.map (R.eval locals) = b.stack.map (R.eval locals)) := by
  refine ⟨fun e hbuilt => ?_, fun b hbuilt => ?_⟩
  · have hiff : e.Everywhere (R.Keeps locals) ↔ e.Everywhere (R.Textual locals) :=
      R.everywhere_keeps_iff hbuilt
    exact ⟨hiff, fun h => (hiff.mpr h).self⟩
  · have hiff : b.Everywhere (R.Keeps locals) ↔ b.Everywhere (R.Textual locals) :=
      R.block_everywhere_keeps_iff hbuilt
    refine ⟨hiff, fun h => ?_⟩
    obtain ⟨hstatements, hstack⟩ := hiff.mpr h
    constructor
    · show (b.statements.map Statement.fold).map (R.exec locals) = _
      rw [List.map_map]
      exact List.map_congr_left fun s hs => R.exec_fold (hstatements s hs)
    · show (b.stack.map Expr.fold).map (R.eval locals) = _
      rw [List.map_map]
      exact List.map_congr_left fun e he => (hstack e he).self

/-- A `coerce_s` that is dropped from a sum with a text in it, although a local is `null`. -/
theorem eval_fold_iff_dropped :
    let sum : Expr := .ofBinary .add (.constant (.string "a")) (.getLocal 1 .any)
    let e : Expr := .convert sum .coerceString
    let b : Block := { statements := [.setLocal 1 e], stack := [e] }
    let R : Runtime := default
    let locals : UInt32 → Constant := fun _ => .null
    e.fold = sum ∧ b.Everywhere Expr.AsBuilt ∧ b.Everywhere (R.Textual locals) ∧
      R.eval locals e = some (.string "anull") ∧ R.eval locals e.fold = R.eval locals e ∧
      b.fold.statements.map (R.exec locals) = b.statements.map (R.exec locals) ∧
      b.fold.stack.map (R.eval locals) = b.stack.map (R.eval locals) := by
  intro sum e b R locals
  have hbuilt : e.Everywhere Expr.AsBuilt := ⟨trivial, rfl, trivial, rfl⟩
  have htextual : e.Everywhere (R.Textual locals) := by
    refine ⟨fun x y hx hy => ?_, trivial, trivial, trivial⟩
    cases hx
    exact .inl rfl
  have hblock : b.Everywhere Expr.AsBuilt :=
    ⟨List.forall_mem_singleton.mpr hbuilt, List.forall_mem_singleton.mpr hbuilt⟩
  have hblocktextual : b.Everywhere (R.Textual locals) :=
    ⟨List.forall_mem_singleton.mpr htextual, List.forall_mem_singleton.mpr htextual⟩
  have hkept := R.eval_fold_iff locals
  exact ⟨rfl, hblock, hblocktextual, rfl, (hkept.1 e hbuilt).2 htextual,
    (hkept.2 b hblock).2 hblocktextual⟩

/-- **The exception.** A text that is `null` and `null` add up to the number zero. Under a
`coerce_s` the sum is the text of zero, and folded it is the number. -/
theorem eval_fold_ne_of_coerced_null :
    let sum : Expr :=
      .ofBinary .add (.convert (.constant .null) .coerceString) (.constant .null)
    let e : Expr := .convert sum .coerceString
    e.Everywhere Expr.AsBuilt ∧ e.fold = sum ∧
      ∀ (R : Runtime) (locals : UInt32 → Constant),
        R.eval locals e = some (.string "0") ∧
        R.eval locals e.fold = some (.number (Double.ofInt 0)) := by
  intro sum e
  have hzero : (Double.ofInt 0).add (Double.ofInt 0) = Double.ofInt 0 := by decide +kernel
  refine ⟨⟨trivial, rfl, ⟨trivial, trivial⟩, trivial⟩, rfl, fun R locals => ?_⟩
  have hsum : R.eval locals sum = some (.number (Double.ofInt 0)) :=
    congrArg (fun d => some (Constant.number d)) hzero
  refine ⟨?_, hsum⟩
  have htext : R.stringOfNumber (Double.ofInt 0) = "0" :=
    R.stringOfNumber_of_some (by decide +kernel)
  have hcoerced : R.eval locals e = (R.eval locals sum).bind (R.convert .coerceString) := rfl
  rw [hcoerced, hsum]
  exact congrArg (fun text => some (Constant.string text)) htext

end Runtime

end Swf.Abc
