import Swf.Abc.Block
import Swf.Abc.Evaluate
import Mathlib.Logic.Function.Basic

/-!
# Running expressions

What expressions evaluate to when they run. Values are literals, and a conversion of `null` to an
object is an error. Here types are looked at late: a sum is a text if either operand is one when it
runs, whatever was known before.

Folding knows less than running does. It takes a text for a number only if that is a plain numeral,
writes only some numbers as texts, compares only some values and makes no objects. A `Runtime`
settles these, in agreement with folding wherever folding has a result, and everything else follows.
-/

namespace Swf.Abc

/-- What folding leaves open. -/
structure Runtime where
  numberOfString : String → Double
  stringOfNumber : Double → String
  compare : BinaryOp → Constant → Constant → Bool
  object : Constant → Option Constant
  numberOfString_of_some : ∀ {text : String} {number : Double},
    Constant.numberOfString? text = some number → numberOfString text = number
  stringOfNumber_of_some : ∀ {number : Double} {text : String},
    Constant.stringOfNumber? number = some text → stringOfNumber number = text
  compare_of_some : ∀ {op : BinaryOp} {ty : Ty} {lhs rhs : Constant} {result : Bool},
    op.isComparison = true → op.eval? ty lhs rhs = some (.boolean result) →
    compare op lhs rhs = result
  object_null : object .null = none
  object_undefined : object .undefined = none

namespace Runtime

/-- What is left open is settled in the simplest way. -/
instance : Inhabited Runtime where
  default :=
    { numberOfString := fun text => (Constant.numberOfString? text).getD Double.nan
      stringOfNumber := fun number => (Constant.stringOfNumber? number).getD ""
      compare := fun op lhs rhs => op.eval? .boolean lhs rhs == some (.boolean true)
      object := fun value => if value = .null ∨ value = .undefined then none else some value
      numberOfString_of_some := fun h => by rw [h]; rfl
      stringOfNumber_of_some := fun h => by rw [h]; rfl
      compare_of_some := fun {op ty lhs rhs result} hop h => by
        have hty : op.eval? .boolean lhs rhs = op.eval? ty lhs rhs := by
          cases op <;> first | rfl | cases hop
        rw [hty, h]
        cases result <;> rfl
      object_null := rfl
      object_undefined := rfl }

variable (R : Runtime)

/-! ## Operations -/

/-- A value as a number. -/
def toNumber : Constant → Double
  | .string value => R.numberOfString value
  | .int value => Double.ofInt value.toInt
  | .uint value => Double.ofInt value.toNat
  | .number value => value
  | .boolean value => Double.ofInt value.toInt
  | .null => Double.ofInt 0
  | .undefined => Double.nan

/-- A value as a text. -/
def toText : Constant → String
  | .string value => value
  | .int value => toString value.toInt
  | .uint value => toString value.toNat
  | .number value => R.stringOfNumber value
  | .boolean value => toString value
  | .null => "null"
  | .undefined => "undefined"

def unary (op : UnaryOp) (operand : Constant) : Constant :=
  match op with
  | .negate => .number (R.toNumber operand).neg
  | .increment => .number ((R.toNumber operand).add (Double.ofInt 1))
  | .decrement => .number ((R.toNumber operand).sub (Double.ofInt 1))
  | .typeOf => .string operand.typeName
  | .not => .boolean !operand.toBoolean
  | .bitNot => .int (~~~(R.toNumber operand).toInt32)

def binary (op : BinaryOp) (lhs rhs : Constant) : Constant :=
  let a := R.toNumber lhs
  let b := R.toNumber rhs
  let places := b.toUInt32 &&& 31
  match op with
  | .add =>
    if lhs.ty = .string ∨ rhs.ty = .string then .string (R.toText lhs ++ R.toText rhs)
    else .number (a.add b)
  | .subtract => .number (a.sub b)
  | .multiply => .number (a.mul b)
  | .divide => .number (a.div b)
  | .modulo => .number (a.rem b)
  | .shiftLeft => .int (a.toInt32 <<< places.toInt32)
  | .shiftRight => .int (a.toInt32 >>> places.toInt32)
  | .shiftRightUnsigned => .uint (a.toUInt32 >>> places)
  | .bitAnd => .int (a.toInt32 &&& b.toInt32)
  | .bitOr => .int (a.toInt32 ||| b.toInt32)
  | .bitXor => .int (a.toInt32 ^^^ b.toInt32)
  | .equals | .strictEquals | .lessThan | .lessEquals | .greaterThan | .greaterEquals =>
    .boolean (R.compare op lhs rhs)

def convert (conversion : Conversion) (operand : Constant) : Option Constant :=
  match conversion with
  | .toString => some (.string (R.toText operand))
  | .coerceString =>
    match operand with
    | .null | .undefined => some .null
    | _ => some (.string (R.toText operand))
  | .toNumber => some (.number (R.toNumber operand))
  | .toInt => some (.int (R.toNumber operand).toInt32)
  | .toUInt => some (.uint (R.toNumber operand).toUInt32)
  | .toBoolean => some (.boolean operand.toBoolean)
  | .toObject => R.object operand
  | .toAny => some operand

/-! ## Expressions and statements -/

/-- The value of an expression, unless it ends in an error. -/
def eval (locals : UInt32 → Constant) : Expr → Option Constant
  | .constant value => some value
  | .getLocal index _ => some (locals index)
  | .unary op operand => (eval locals operand).map (R.unary op)
  | .binary op lhs rhs _ =>
    (eval locals lhs).bind fun a => (eval locals rhs).map (R.binary op a)
  | .convert operand conversion => (eval locals operand).bind (R.convert conversion)

/-- How a statement ends: the method goes on with some locals, or it returns. -/
inductive Outcome where
  | next (locals : UInt32 → Constant)
  | exit (value : Option Constant)

/-- What a statement does, unless it ends in an error. -/
def exec (locals : UInt32 → Constant) : Statement → Option Outcome
  | .setLocal index value =>
    (R.eval locals value).map fun v => .next (Function.update locals index v)
  | .discard value => (R.eval locals value).map fun _ => .next locals
  | .exit none => some (.exit none)
  | .exit (some value) => (R.eval locals value).map fun v => .exit (some v)

/-! ## Agreement with folding -/

theorem toNumber_of_some {value : Constant} {number : Double}
    (h : value.toNumber? = some number) : R.toNumber value = number := by
  cases value with
  | string text => exact R.numberOfString_of_some h
  | _ => exact Option.some.inj h

theorem toText_of_some {value : Constant} {text : String} (h : value.toString? = some text) :
    R.toText value = text := by
  cases value with
  | number number => exact R.stringOfNumber_of_some h
  | _ => exact Option.some.inj h

theorem toNumber_of_numbers {lhs rhs : Constant} {a b : Double}
    (h : Constant.numbers? lhs rhs = some (a, b)) : R.toNumber lhs = a ∧ R.toNumber rhs = b := by
  obtain ⟨x, hx, h⟩ := Option.bind_eq_some_iff.mp h
  obtain ⟨y, hy, h⟩ := Option.bind_eq_some_iff.mp h
  cases h
  exact ⟨R.toNumber_of_some hx, R.toNumber_of_some hy⟩

/-- A unary operation on a literal is folded to what it gives. -/
theorem unary_of_eval? {op : UnaryOp} {operand result : Constant}
    (h : op.eval? operand = some result) : R.unary op operand = result := by
  cases op with
  | typeOf | not => exact Option.some.inj h
  | negate | increment | decrement | bitNot =>
    obtain ⟨a, ha, h⟩ := Option.bind_eq_some_iff.mp h
    cases h
    rw [unary, R.toNumber_of_some ha]

/-- A comparison of literals is folded to its outcome. -/
theorem compare_of_eval? {op : BinaryOp} {ty : Ty} {lhs rhs result : Constant}
    (hop : op.isComparison = true) (h : op.eval? ty lhs rhs = some result) :
    .boolean (R.compare op lhs rhs) = result := by
  obtain ⟨outcome, rfl⟩ : ∃ outcome, result = .boolean outcome := by
    cases op <;> cases hop <;> obtain ⟨outcome, _, rfl⟩ := Option.map_eq_some_iff.mp h <;>
      exact ⟨outcome, rfl⟩
  rw [R.compare_of_some hop h]

/-- A sum of literals is folded to their sum: its type tells whether a text is among them. -/
theorem add_of_sum? {lhs rhs result : Constant}
    (h : BinaryOp.sum? (BinaryOp.sumTy lhs.ty rhs.ty) lhs rhs = some result) :
    R.binary .add lhs rhs = result := by
  unfold BinaryOp.sumTy at h
  unfold binary
  by_cases htext : lhs.ty = .string ∨ rhs.ty = .string
  · rw [if_pos htext] at h
    obtain ⟨a, ha, h⟩ := Option.bind_eq_some_iff.mp h
    obtain ⟨b, hb, h⟩ := Option.bind_eq_some_iff.mp h
    cases h
    simp only [if_pos htext, R.toText_of_some ha, R.toText_of_some hb]
  · rw [if_neg htext] at h
    split at h
    · obtain ⟨⟨a, b⟩, hab, h⟩ := Option.bind_eq_some_iff.mp h
      cases h
      obtain ⟨ha, hb⟩ := R.toNumber_of_numbers hab
      simp only [if_neg htext, ha, hb]
    · cases h

/-- A binary operation on literals is folded to what it gives. -/
theorem binary_of_eval? {op : BinaryOp} {lhs rhs result : Constant}
    (h : op.eval? (op.resultTy lhs.ty rhs.ty) lhs rhs = some result) :
    R.binary op lhs rhs = result := by
  cases op with
  | add => exact R.add_of_sum? h
  | equals | strictEquals | lessThan | lessEquals | greaterThan | greaterEquals =>
    exact R.compare_of_eval? rfl h
  | subtract | multiply | divide | modulo =>
    obtain ⟨⟨a, b⟩, hab, rfl⟩ := Option.map_eq_some_iff.mp h
    obtain ⟨rfl, rfl⟩ := R.toNumber_of_numbers hab
    rfl
  | shiftLeft | shiftRight | shiftRightUnsigned =>
    obtain ⟨⟨a, places⟩, hshift, rfl⟩ := Option.map_eq_some_iff.mp h
    obtain ⟨⟨a, b⟩, hab, heq⟩ := Option.bind_eq_some_iff.mp hshift
    cases heq
    obtain ⟨rfl, rfl⟩ := R.toNumber_of_numbers hab
    rfl
  | bitAnd | bitOr | bitXor =>
    obtain ⟨⟨a, b⟩, hintegers, rfl⟩ := Option.map_eq_some_iff.mp h
    obtain ⟨⟨a, b⟩, hab, heq⟩ := Option.bind_eq_some_iff.mp hintegers
    cases heq
    obtain ⟨rfl, rfl⟩ := R.toNumber_of_numbers hab
    rfl

/-- A conversion of a literal is folded to what it gives. -/
theorem convert_of_eval? {conversion : Conversion} {operand result : Constant}
    (h : conversion.eval? operand = some result) :
    R.convert conversion operand = some result := by
  cases conversion with
  | toObject | toAny => cases h
  | toBoolean => exact h
  | toString =>
    obtain ⟨text, htext, rfl⟩ := Option.map_eq_some_iff.mp h
    rw [convert, R.toText_of_some htext]
  | toNumber | toInt | toUInt =>
    obtain ⟨a, ha, rfl⟩ := Option.map_eq_some_iff.mp h
    rw [convert, R.toNumber_of_some ha]
  | coerceString =>
    cases operand with
    | null | undefined => cases h
    | string | int | uint | boolean => exact h
    | number value =>
      obtain ⟨text, htext, rfl⟩ :
          ∃ text, Constant.stringOfNumber? value = some text ∧ .string text = result :=
        Option.map_eq_some_iff.mp h
      exact congrArg (fun text => some (Constant.string text)) (R.stringOfNumber_of_some htext)

end Runtime

end Swf.Abc
