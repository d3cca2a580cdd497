import Swf.Proofs.Abc.Everywhere
import Swf.Proofs.Abc.Resident
import Swf.Sequencing
import Mathlib.Data.List.Forall2

/-!
# Emitted code does what it was emitted from

Code for an expression is run in front of any other code, and the other code then finds the value on
top of the stack and nothing else changed (`Computes`). Code for a statement does what the statement
does (`Performs`). A block is a sequence of both, so its code reaches the machine that the block
means, provided that no statement stands behind one that ends the method.

All of it is about blocks with resident literals. Emission leaves the pool alone then, and what is
emitted later does not change what was emitted before.
-/

namespace Swf.Abc

/-! ## What can be emitted -/

/-- An expression that is no literal, or a resident one. -/
def Expr.Emittable (pool : Pool) : Expr → Prop
  | .constant value => value.Resident pool
  | _ => True

/-- Whether the statement reads or writes a local. -/
def Statement.usesLocal (index : UInt32) : Statement → Bool
  | .setLocal i value => i == index || value.readsLocal index
  | .discard value => value.readsLocal index
  | .exit value => value.any (·.readsLocal index)

/-- Whether the statement ends the method. -/
def Statement.isExit : Statement → Bool
  | .exit _ => true
  | _ => false

namespace Block

/-- Whether anything in the block reads or writes a local. -/
def usesLocal (index : UInt32) (b : Block) : Bool :=
  b.statements.any (·.usesLocal index) || b.stack.any (·.readsLocal index)

/-- The method does not end in the block. -/
def IsOpen (b : Block) : Prop := ∀ s ∈ b.statements, s.isExit = false

/-- The method ends in the block with the last statement, if at all, and then it leaves nothing. -/
def WellEnded (b : Block) : Prop :=
  b.IsOpen ∨ ∃ (body : List Statement) (value : Option Expr),
    IsOpen { statements := body } ∧ b = { statements := body ++ [.exit value] }

end Block

/-! ## Expressions -/

/-- Code that leaves the value of an expression on top of the stack. -/
def Computes (pool : Pool) (e : Expr) (ops : List Op) : Prop :=
  ∀ (I : Interpretation) (rest : List Op) (s : Machine I.Value),
    I.run pool (ops ++ rest) s =
      I.run pool rest { s with stack := I.eval s.registers e :: s.stack }

/-- One more operation behind code for an expression. -/
theorem Computes.run_append {pool : Pool} {e : Expr} {ops : List Op} (h : Computes pool e ops)
    (I : Interpretation) (op : Op) (rest : List Op) (s : Machine I.Value) :
    I.run pool (ops ++ [op] ++ rest) s =
      I.run pool (op :: rest) { s with stack := I.eval s.registers e :: s.stack } := by
  rw [List.append_assoc, h]
  rfl

theorem checkLocal_of_lt {localCount index : UInt32} (h : index < localCount) (pool : Pool) :
    checkLocal localCount index pool = .ok () pool := by
  unfold checkLocal
  rw [if_pos h]
  rfl

/-- **Expressions.** Code for an expression can be emitted, and it computes the expression. -/
theorem emit_expr {pool : Pool} {localCount : UInt32} {e : Expr}
    (hresident : e.Everywhere (Expr.Emittable pool))
    (hlocals : ∀ i, e.readsLocal i = true → i < localCount) :
    ∃ ops, e.emit localCount pool = .ok ops pool ∧ Computes pool e ops := by
  -- The code behind an operand is arbitrary, so what the operand was emitted for may stand there.
  induction e with
  | constant value =>
    obtain ⟨op, hemit, hop, hpush⟩ := hresident
    refine ⟨[op], ?_, fun I rest s => I.run_cons (hpush I s) hop⟩
    unfold Expr.emit
    rw [bind_of_ok hemit]
    rfl
  | getLocal index ty =>
    have hlt : index < localCount := hlocals index (beq_self_eq_true index)
    refine ⟨[.getLocal index], ?_, fun I rest s => I.run_cons rfl rfl⟩
    unfold Expr.emit
    rw [bind_of_ok (checkLocal_of_lt hlt pool)]
    rfl
  | unary op operand ih =>
    obtain ⟨ops, hemit, hops⟩ := ih hresident.2 hlocals
    refine ⟨ops ++ [.unary op], ?_, fun I rest s => ?_⟩
    · unfold Expr.emit
      rw [bind_of_ok hemit]
      rfl
    · rw [hops.run_append]
      exact I.run_cons rfl rfl
  | binary op lhs rhs ty ihl ihr =>
    have hreads (i : UInt32) (h : lhs.readsLocal i = true ∨ rhs.readsLocal i = true) :
        i < localCount := hlocals i (by simpa [Expr.readsLocal] using h)
    obtain ⟨left, hleft, hl⟩ := ihl hresident.2.1 fun i hi => hreads i (.inl hi)
    obtain ⟨right, hright, hr⟩ := ihr hresident.2.2 fun i hi => hreads i (.inr hi)
    refine ⟨left ++ right ++ [.binary op], ?_, fun I rest s => ?_⟩
    · unfold Expr.emit
      rw [bind_of_ok hleft, bind_of_ok hright]
      rfl
    · rw [List.append_assoc left, List.append_assoc left, hl, hr.run_append]
      exact I.run_cons rfl rfl
  | convert operand conversion ih =>
    obtain ⟨ops, hemit, hops⟩ := ih hresident.2 hlocals
    refine ⟨ops ++ [.convert conversion], ?_, fun I rest s => ?_⟩
    · unfold Expr.emit
      rw [bind_of_ok hemit]
      rfl
    · rw [hops.run_append]
      exact I.run_cons rfl rfl

/-! ## Statements -/

/-- Code that does what a statement does, and then goes on unless the statement ends the method. -/
def Performs (pool : Pool) (statement : Statement) (ops : List Op) : Prop :=
  ∀ (I : Interpretation) (rest : List Op) (s : Machine I.Value),
    I.run pool (ops ++ rest) s =
      if statement.isExit then some (I.exec s statement) else I.run pool rest (I.exec s statement)

/-- **Statements.** Code for a statement can be emitted, and it performs the statement. -/
theorem emit_statement {pool : Pool} {localCount : UInt32} {statement : Statement}
    (hresident : statement.Everywhere (Expr.Emittable pool))
    (hlocals : ∀ i, statement.usesLocal i = true → i < localCount) :
    ∃ ops, statement.emit localCount pool = .ok ops pool ∧ Performs pool statement ops := by
  cases statement with
  | setLocal index value =>
    have huses (i : UInt32) (h : index = i ∨ value.readsLocal i = true) : i < localCount :=
      hlocals i (by simpa [Statement.usesLocal] using h)
    obtain ⟨ops, hemit, hops⟩ := emit_expr hresident fun i hi => huses i (.inr hi)
    refine ⟨ops ++ [.setLocal index], ?_, fun I rest s => ?_⟩
    · rw [Statement.emit, bind_of_ok (checkLocal_of_lt (huses index (.inl rfl)) pool),
        bind_of_ok hemit]
      rfl
    · rw [hops.run_append]
      exact I.run_cons rfl rfl
  | discard value =>
    obtain ⟨ops, hemit, hops⟩ := emit_expr hresident hlocals
    refine ⟨ops ++ [.pop], ?_, fun I rest s => ?_⟩
    · rw [Statement.emit, bind_of_ok hemit]
      rfl
    · rw [hops.run_append]
      exact I.run_cons rfl rfl
  | exit value =>
    cases value with
    | none => exact ⟨[.returnVoid], rfl, fun I rest s => I.run_return rfl rfl⟩
    | some value =>
      obtain ⟨ops, hemit, hops⟩ := emit_expr (hresident value rfl) hlocals
      refine ⟨ops ++ [.returnValue], ?_, fun I rest s => ?_⟩
      · rw [Statement.emit, bind_of_ok hemit]
        rfl
      · rw [hops.run_append]
        exact I.run_return rfl rfl

/-! ## Blocks -/

/-- Computations that leave the state alone, one after the other, give the list of their results. -/
theorem mapM_of_ok {ε σ α β : Type} {f : α → EStateM ε σ β} {s : σ} {P : α → β → Prop}
    {xs : List α} (h : ∀ x ∈ xs, ∃ y, f x s = .ok y s ∧ P x y) :
    ∃ ys, xs.mapM f s = .ok ys s ∧ List.Forall₂ P xs ys := by
  induction xs with
  | nil => exact ⟨[], rfl, .nil⟩
  | cons x xs ih =>
    obtain ⟨y, hy, hP⟩ := h x List.mem_cons_self
    obtain ⟨ys, hys, hPs⟩ := ih fun z hz => h z (List.mem_cons_of_mem x hz)
    refine ⟨y :: ys, ?_, .cons hP hPs⟩
    rw [List.mapM_cons, bind_of_ok hy, bind_of_ok hys]
    rfl

/-- Code for statements that do not end the method, in front of code for more statements. -/
theorem run_statements {pool : Pool} {body tail : List Statement} {codes : List (List Op)}
    (h : List.Forall₂ (Performs pool) (body ++ tail) codes)
    (hopen : ∀ s ∈ body, s.isExit = false) :
    ∃ rest, List.Forall₂ (Performs pool) tail rest ∧
      ∀ (I : Interpretation) (code : List Op) (s : Machine I.Value),
        I.run pool (codes.flatten ++ code) s =
          I.run pool (rest.flatten ++ code) (body.foldl I.exec s) := by
  induction body generalizing codes with
  | nil => exact ⟨codes, h, fun _ _ _ => rfl⟩
  | cons statement body ih =>
    cases h with
    | @cons _ ops _ codes hops hcodes =>
      obtain ⟨rest, hrest, hrun⟩ := ih hcodes fun s hs => hopen s (List.mem_cons_of_mem _ hs)
      refine ⟨rest, hrest, fun I code s => ?_⟩
      rw [List.flatten_cons, List.append_assoc, hops, hopen statement List.mem_cons_self,
        if_neg Bool.false_ne_true, hrun, List.foldl_cons]

/-- Code for expressions, one after the other: the value of the last one ends on top. -/
theorem run_values {pool : Pool} {values : List Expr} {codes : List (List Op)}
    (h : List.Forall₂ (Computes pool) values codes) (I : Interpretation) (code : List Op)
    (s : Machine I.Value) :
    I.run pool (codes.flatten ++ code) s =
      I.run pool code
        { s with stack := (values.map (I.eval s.registers)).reverse ++ s.stack } := by
  induction h generalizing s with
  | nil => rfl
  | cons hops hcodes ih =>
    rw [List.flatten_cons, List.append_assoc, hops, ih, List.map_cons, List.reverse_cons,
      List.append_assoc]
    rfl

/-- **Blocks.** Code for a block can be emitted, adds nothing to the pool, and does what the block
means. -/
theorem emit_block {pool : Pool} {localCount : UInt32} {b : Block}
    (hresident : b.Everywhere (Expr.Emittable pool))
    (hlocals : ∀ i, b.usesLocal i = true → i < localCount) (hended : b.WellEnded) :
    ∃ code, b.emit localCount pool = .ok code pool ∧
      ∀ (I : Interpretation) (registers : UInt32 → I.Value),
        I.run pool code { registers } = some (I.meaning registers b) := by
  have hstatement (s : Statement) (hs : s ∈ b.statements) :
      ∃ ops, s.emit localCount pool = .ok ops pool ∧ Performs pool s ops :=
    emit_statement (hresident.statements s hs) fun i hi => hlocals i
      (Bool.or_eq_true_iff.mpr (.inl (List.any_eq_true.mpr ⟨s, hs, hi⟩)))
  have hvalue (e : Expr) (he : e ∈ b.stack.reverse) :
      ∃ ops, e.emit localCount pool = .ok ops pool ∧ Computes pool e ops :=
    emit_expr (hresident.stack e (List.mem_reverse.mp he)) fun i hi => hlocals i
      (Bool.or_eq_true_iff.mpr (.inr (List.any_eq_true.mpr ⟨e, List.mem_reverse.mp he, hi⟩)))
  obtain ⟨statements, hemitted, hperforms⟩ := mapM_of_ok hstatement
  obtain ⟨values, hpushed, hcomputes⟩ := mapM_of_ok hvalue
  refine ⟨statements.flatten ++ values.flatten, ?_, fun I registers => ?_⟩
  · unfold Block.emit
    rw [bind_of_ok hemitted, bind_of_ok hpushed]
    rfl
  rcases hended with hopen | ⟨body, value, hopen, rfl⟩
  · -- all statements are gone through, and then the values are pushed from the bottom up
    rw [← List.append_nil b.statements] at hperforms
    obtain ⟨_, hnone, hrun⟩ := run_statements hperforms hopen
    cases hnone
    have hempty : (b.statements.foldl I.exec { registers }).stack = [] :=
      I.stack_afterStatements registers b.statements
    rw [hrun, ← List.append_nil values.flatten, List.flatten_nil, List.nil_append,
      run_values hcomputes, hempty, List.map_reverse, List.reverse_reverse, List.append_nil]
    rfl
  · -- the last statement ends the method, and nothing is left to push
    obtain ⟨_, hlast, hrun⟩ := run_statements hperforms hopen
    rcases hlast with _ | ⟨hexit, hnone⟩
    cases hnone
    have hend : (Statement.exit value).isExit = true := rfl
    rw [hrun, List.flatten_singleton, hexit, if_pos hend, I.meaning_mk, I.afterStatements_append]
    rfl

end Swf.Abc
