import Swf.Proofs.Abc.Growth
import Swf.Proofs.Abc.Resident
import Swf.Proofs.Abc.Emission
import Swf.Abc.Lift

/-!
# Emitted code is lifted back

Code does not say everything about the expression that it was emitted from: a local has no type in
it, the type of a binary operation is found again from its operands, and what is not a number is
pushed as the one such value. `Expr.erase` forgets just this. Code for an expression, in front of
any other code, lifts to the erased expression on top of the stack (`Builds`), whatever has come
into the pool since. Code for a statement lifts to the erased statement (`Records`): it starts from
an empty stack, so no value is pending that would read a local after it was written.
-/

namespace Swf.Abc

/-! ## What code says -/

/-- The literal, as code for it pushes it. -/
def Constant.erase : Constant → Constant
  | .number value => .number (if value.isNaN then Double.nan else value)
  | value => value

/-- The expression without the types that its code does not hold. -/
def Expr.erase : Expr → Expr
  | .constant value => .constant value.erase
  | .getLocal index _ => .getLocal index .any
  | .unary op operand => .unary op operand.erase
  | .binary op lhs rhs _ => .ofBinary op lhs.erase rhs.erase
  | .convert operand conversion => .convert operand.erase conversion

def Statement.erase : Statement → Statement
  | .setLocal index value => .setLocal index value.erase
  | .discard value => .discard value.erase
  | .exit value => .exit (value.map Expr.erase)

def Block.erase (b : Block) : Block :=
  { statements := b.statements.map Statement.erase, stack := b.stack.map Expr.erase }

/-! ## Expressions -/

/-- An operation that does not return leaves the rest of the code to run. -/
theorem Block.run_cons {pool : Pool} {index : Nat} {b next : Block} {op : Op} {ops : List Op}
    (hstep : b.step pool index op = .ok next) (hop : op.isReturn = false) :
    b.run pool index (op :: ops) = next.run pool (index + 1) ops := by
  rw [Block.run, hstep]
  simp only [hop]
  rfl

/-- Code that lifts to an expression on top of the stack. -/
def Builds (pool : Pool) (e : Expr) (ops : List Op) : Prop :=
  ∀ (index : Nat) (ss : List Statement) (es : List Expr) (rest : List Op),
    Block.run pool index { statements := ss, stack := es } (ops ++ rest) =
      Block.run pool (index + ops.length) { statements := ss, stack := e :: es } rest

namespace Builds

variable {pool : Pool}

theorem push (pool : Pool) (value : Immediate) :
    Builds pool (.constant value.constant) [.push value] := fun _ _ _ _ => rfl

theorem pushPooled {kind : PoolKind} {index : UInt32} {value : Constant}
    (h : pool.constant? kind index = some value) :
    Builds pool (.constant value) [.pushPooled kind index] := by
  intro position ss es rest
  refine Block.run_cons ?_ rfl
  show (pool.constant kind index).map
    (fun value => ({ statements := ss, stack := .constant value :: es } : Block)) = _
  rw [Pool.constant, h]
  rfl

theorem getLocal (pool : Pool) (index : UInt32) :
    Builds pool (.getLocal index .any) [.getLocal index] := fun _ _ _ _ => rfl

theorem unary {operand : Expr} {ops : List Op} (op : UnaryOp) (h : Builds pool operand ops) :
    Builds pool (.unary op operand) (ops ++ [.unary op]) := by
  intro index ss es rest
  rw [List.append_assoc, h, List.length_append]
  rfl

theorem convert {operand : Expr} {ops : List Op} (conversion : Conversion)
    (h : Builds pool operand ops) :
    Builds pool (.convert operand conversion) (ops ++ [.convert conversion]) := by
  intro index ss es rest
  rw [List.append_assoc, h, List.length_append]
  rfl

theorem binary {lhs rhs : Expr} {left right : List Op} (op : BinaryOp)
    (hleft : Builds pool lhs left) (hright : Builds pool rhs right) :
    Builds pool (.ofBinary op lhs rhs) (left ++ right ++ [.binary op]) := by
  intro index ss es rest
  rw [List.append_assoc, List.append_assoc, hleft, hright, List.length_append, List.length_append,
    ← Nat.add_assoc, ← Nat.add_assoc]
  rfl

end Builds

section Emission

variable {pool pool' final : Pool} {localCount : UInt32}

theorem builds_emitInt {value : Int32} {op : Op} (h : emitInt value pool = .ok op pool')
    (hgrows : pool'.GrowsTo final) (hroom : final.Addressable) :
    Builds final (.constant (.int value)) [op] := by
  unfold emitInt at h
  split at h
  · next hbyte =>
    cases h
    have := Builds.push final (.byte value.toInt8)
    rwa [Immediate.constant, Constant.toInt32_toInt8 hbyte] at this
  · split at h
    · next hshort =>
      cases h
      have := Builds.push final (.short value.toInt16)
      rwa [Immediate.constant, Constant.toInt32_toInt16 hshort] at this
    · cases h
      have hget := Table.get?_of_insert_prefix hgrows.ints hroom.ints
      exact Builds.pushPooled (by rw [Pool.constant?, hget]; rfl)

/-- Whatever the pool has grown to since, the literal is found. -/
theorem builds_emit_constant {value : Constant} {op : Op} (h : value.emit pool = .ok op pool')
    (hgrows : pool'.GrowsTo final) (hroom : final.Addressable) :
    Builds final (.constant value.erase) [op] := by
  cases value with
  | int value => exact builds_emitInt h hgrows hroom
  | string value =>
    -- the index is that of the table then, and the entry stands at it still
    cases h
    have hget := Table.get?_of_insert_prefix hgrows.strings hroom.strings
    exact Builds.pushPooled (by rw [Pool.constant?, hget]; rfl)
  | uint value =>
    cases h
    have hget := Table.get?_of_insert_prefix hgrows.uints hroom.uints
    exact Builds.pushPooled (by rw [Pool.constant?, hget]; rfl)
  | number value =>
    have hemit : (Constant.number value).emit pool =
      (if value.isNaN = true then pure (.push .nan)
        else .pushPooled .double <$> modifyGet (Pool.internDouble value) : Emitter Op) pool := rfl
    rw [hemit] at h
    by_cases hnan : value.isNaN = true
    · -- it does not come into the pool, and its payload is lost
      rw [if_pos hnan] at h
      cases h
      rw [Constant.erase, if_pos hnan]
      exact Builds.push final .nan
    · rw [if_neg hnan] at h
      cases h
      rw [Constant.erase, if_neg hnan]
      have hget := Table.get?_of_insert_prefix hgrows.doubles hroom.doubles
      exact Builds.pushPooled (by rw [Pool.constant?, hget]; rfl)
  | boolean value =>
    cases value with
    | false => cases h; exact Builds.push final .false
    | true => cases h; exact Builds.push final .true
  | null => cases h; exact Builds.push final .null
  | undefined => cases h; exact Builds.push final .undefined

/-- **Expressions.** Code for an expression lifts to the erased expression. -/
theorem builds_emit {e : Expr} {ops : List Op} (h : e.emit localCount pool = .ok ops pool')
    (hgrows : pool'.GrowsTo final) (hroom : final.Addressable) : Builds final e.erase ops := by
  induction e generalizing pool pool' ops with
  | constant value =>
    obtain ⟨op, pool₁, hop, hrest⟩ := ok_of_bind h
    cases hrest
    exact builds_emit_constant hop hgrows hroom
  | getLocal index ty =>
    obtain ⟨_, pool₁, -, hrest⟩ := ok_of_bind h
    cases hrest
    exact Builds.getLocal final index
  | unary op operand ih =>
    obtain ⟨ops₁, pool₁, hoperand, hrest⟩ := ok_of_bind h
    cases hrest
    exact (ih hoperand hgrows).unary op
  | binary op lhs rhs ty ihl ihr =>
    obtain ⟨left, pool₁, hleft, hrest⟩ := ok_of_bind h
    obtain ⟨right, pool₂, hright, hrest⟩ := ok_of_bind hrest
    cases hrest
    -- the literals of the right operand come into the pool behind those of the left one
    have hbetween := (Emitter.Grows.expr localCount rhs).ok hright
    exact Builds.binary op (ihl hleft (hbetween.trans hgrows)) (ihr hright hgrows)
  | convert operand conversion ih =>
    obtain ⟨ops₁, pool₁, hoperand, hrest⟩ := ok_of_bind h
    cases hrest
    exact (ih hoperand hgrows).convert conversion

/-! ## Statements -/

/-- Code that lifts to a statement, if it starts from an empty stack. -/
def Records (pool : Pool) (s : Statement) (ops : List Op) : Prop :=
  ∀ (index : Nat) (ss : List Statement) (rest : List Op),
    Block.run pool index { statements := ss } (ops ++ rest) =
      if s.isExit then .ok { statements := ss ++ [s] }
      else Block.run pool (index + ops.length) { statements := ss ++ [s] } rest

/-- **Statements.** Code for a statement lifts to the erased statement. -/
theorem records_emit {s : Statement} {ops : List Op} (h : s.emit localCount pool = .ok ops pool')
    (hgrows : pool'.GrowsTo final) (hroom : final.Addressable) : Records final s.erase ops := by
  cases s with
  | setLocal i value =>
    obtain ⟨_, pool₁, -, hrest⟩ := ok_of_bind h
    obtain ⟨ops₁, pool₂, hvalue, hrest⟩ := ok_of_bind hrest
    cases hrest
    intro index ss rest
    rw [List.append_assoc, builds_emit hvalue hgrows hroom, List.length_append]
    -- nothing else is on the stack that could read the local
    rfl
  | discard value =>
    obtain ⟨ops₁, pool₁, hvalue, hrest⟩ := ok_of_bind h
    cases hrest
    intro index ss rest
    rw [List.append_assoc, builds_emit hvalue hgrows hroom, List.length_append]
    rfl
  | exit value =>
    cases value with
    | none =>
      cases h
      exact fun _ _ _ => rfl
    | some value =>
      obtain ⟨ops₁, pool₁, hvalue, hrest⟩ := ok_of_bind h
      cases hrest
      intro index ss rest
      rw [List.append_assoc, builds_emit hvalue hgrows hroom]
      rfl

/-! ## Blocks -/

/-- What holds of each result for every later pool holds of all results for the last one. -/
theorem forall₂_of_mapM {α β : Type} {f : α → Emitter β} {P : α → β → Prop} {as : List α}
    {bs : List β} (hf : ∀ a, (f a).Grows)
    (hP : ∀ {a b} {before after : Pool}, f a before = .ok b after → after.GrowsTo final → P a b)
    (h : as.mapM f pool = .ok bs pool') (hgrows : pool'.GrowsTo final) :
    List.Forall₂ P as bs := by
  induction as generalizing pool bs with
  | nil => cases h; exact .nil
  | cons a as ih =>
    rw [List.mapM_cons] at h
    obtain ⟨b, pool₁, hfirst, hrest⟩ := ok_of_bind h
    obtain ⟨bs₁, pool₂, hlater, hrest⟩ := ok_of_bind hrest
    cases hrest
    exact .cons (hP hfirst (((Emitter.Grows.mapM hf as).ok hlater).trans hgrows)) (ih hlater)

/-- Code for expressions, one after the other: the last one ends on top. -/
theorem run_builds {values : List Expr} {codes : List (List Op)}
    (h : List.Forall₂ (fun e ops => Builds pool e.erase ops) values codes) (index : Nat)
    (ss : List Statement) (es : List Expr) :
    Block.run pool index { statements := ss, stack := es } codes.flatten =
      .ok { statements := ss, stack := (values.map Expr.erase).reverse ++ es } := by
  induction h generalizing index es with
  | nil => rfl
  | cons hops hcodes ih => rw [List.flatten_cons, hops, ih]; simp

/-- Code for statements that do not end the method, in front of code for more statements. -/
theorem run_records {body tail : List Statement} {codes : List (List Op)}
    (h : List.Forall₂ (fun s ops => Records pool s.erase ops) (body ++ tail) codes)
    (hopen : ∀ s ∈ body, s.isExit = false) (index : Nat) (ss : List Statement) :
    ∃ later index', List.Forall₂ (fun s ops => Records pool s.erase ops) tail later ∧
      ∀ rest, Block.run pool index { statements := ss } (codes.flatten ++ rest) =
        Block.run pool index' { statements := ss ++ body.map Statement.erase }
          (later.flatten ++ rest) := by
  induction body generalizing codes index ss with
  | nil => exact ⟨codes, index, h, fun rest => by rw [List.map_nil, List.append_nil]⟩
  | cons s body ih =>
    cases h with
    | @cons _ ops _ codes hops hcodes =>
      obtain ⟨hs, hbody⟩ := List.forall_mem_cons.mp hopen
      obtain ⟨later, index', hlater, hrun⟩ :=
        ih hcodes hbody (index + ops.length) (ss ++ [s.erase])
      have hgoes : s.erase.isExit = false := by cases s <;> first | rfl | cases hs
      refine ⟨later, index', hlater, fun rest => ?_⟩
      rw [List.flatten_cons, List.append_assoc, hops, hgoes, if_neg Bool.false_ne_true, hrun,
        List.map_cons, List.append_assoc]
      rfl

/-- **Blocks.** Code for a block lifts to the erased block, if nothing stands behind the end of the
method in it. -/
theorem lift_emit_block {b : Block} {code : List Op} (hended : b.WellEnded)
    (h : b.emit localCount pool = .ok code pool') (hgrows : pool'.GrowsTo final)
    (hroom : final.Addressable) : lift final code = .ok b.erase := by
  obtain ⟨statements, pool₁, hstatements, hrest⟩ := ok_of_bind h
  obtain ⟨values, pool₂, hvalues, hrest⟩ := ok_of_bind hrest
  cases hrest
  have hlater := (Emitter.Grows.mapM (Emitter.Grows.expr localCount) b.stack.reverse).ok hvalues
  have hrecords := forall₂_of_mapM (Emitter.Grows.statement localCount)
    (fun hs hto => records_emit hs hto hroom) hstatements (hlater.trans hgrows)
  have hbuilds := forall₂_of_mapM (Emitter.Grows.expr localCount)
    (fun he hto => builds_emit he hto hroom) hvalues hgrows
  unfold lift
  rcases hended with hopen | ⟨body, value, hopen, rfl⟩
  · -- all statements are recorded, and then the values come on the stack from the bottom up
    rw [← List.append_nil b.statements] at hrecords
    obtain ⟨_, index, hnone, hrun⟩ := run_records hrecords hopen 0 []
    cases hnone
    rw [hrun, List.flatten_nil, List.nil_append, List.nil_append, run_builds hbuilds,
      List.map_reverse, List.reverse_reverse, List.append_nil]
    rfl
  · -- the last statement ends the run, and nothing is left to push
    obtain ⟨_, index, hlast, hrun⟩ := run_records hrecords hopen 0 []
    rcases hlast with _ | ⟨hexit, hnone⟩
    cases hnone
    have hend : (Statement.exit value).erase.isExit = true := rfl
    rw [hrun, List.flatten_singleton, hexit, if_pos hend]
    simp [Block.erase]

end Emission

end Swf.Abc
