import Swf.Proofs.Abc.Everywhere
import Swf.Proofs.Abc.Semantics
import Swf.Abc.Lift

/-!
# A lifted block means what its code does

Lifting runs code on a stack of expressions, and it changes the order of things: a value that
stays on the stack is computed after all statements, and a value that was doubled is computed
twice. The relation that survives this is simple. The block so far means the machine so far
(`Interpretation.step_meaning`), because no expression on the stack reads a local that a later
statement writes; a write that would break this is refused, and every other operation leaves the
registers alone.
-/

namespace Swf.Abc

/-! ## What one operation does -/

/-- The ways in which an operation makes a block of a block. -/
inductive Lifts (pool : Pool) : Block → Op → Block → Prop where
  | nop (b : Block) : Lifts pool b .nop b
  | label (b : Block) : Lifts pool b .label b
  | push (ss : List Statement) (es : List Expr) (value : Immediate) :
      Lifts pool { statements := ss, stack := es } (.push value)
        { statements := ss, stack := .constant value.constant :: es }
  | pushPooled (ss : List Statement) (es : List Expr) {kind : PoolKind} {entry : UInt32}
      {value : Constant} (found : pool.constant? kind entry = some value) :
      Lifts pool { statements := ss, stack := es } (.pushPooled kind entry)
        { statements := ss, stack := .constant value :: es }
  | pop (ss : List Statement) (es : List Expr) (top : Expr) :
      Lifts pool { statements := ss, stack := top :: es } .pop
        { statements := ss ++ [.discard top], stack := es }
  | dup (ss : List Statement) (es : List Expr) (top : Expr) :
      Lifts pool { statements := ss, stack := top :: es } .dup
        { statements := ss, stack := top :: top :: es }
  | swap (ss : List Statement) (es : List Expr) (top below : Expr) :
      Lifts pool { statements := ss, stack := top :: below :: es } .swap
        { statements := ss, stack := below :: top :: es }
  | getLocal (ss : List Statement) (es : List Expr) (i : UInt32) :
      Lifts pool { statements := ss, stack := es } (.getLocal i)
        { statements := ss, stack := .getLocal i .any :: es }
  /-- No expression on the stack may read the local. -/
  | setLocal (ss : List Statement) (es : List Expr) (top : Expr) {i : UInt32}
      (unread : es.any (·.readsLocal i) = false) :
      Lifts pool { statements := ss, stack := top :: es } (.setLocal i)
        { statements := ss ++ [.setLocal i top], stack := es }
  | convert (ss : List Statement) (es : List Expr) (top : Expr) (conversion : Conversion) :
      Lifts pool { statements := ss, stack := top :: es } (.convert conversion)
        { statements := ss, stack := .convert top conversion :: es }
  | unary (ss : List Statement) (es : List Expr) (top : Expr) (op : UnaryOp) :
      Lifts pool { statements := ss, stack := top :: es } (.unary op)
        { statements := ss, stack := .unary op top :: es }
  | binary (ss : List Statement) (es : List Expr) (lhs rhs : Expr) (op : BinaryOp) :
      Lifts pool { statements := ss, stack := rhs :: lhs :: es } (.binary op)
        { statements := ss, stack := .ofBinary op lhs rhs :: es }
  | returnVoid (ss : List Statement) (es : List Expr) :
      Lifts pool { statements := ss, stack := es } .returnVoid
        { statements := ss ++ [.exit none] }
  | returnValue (ss : List Statement) (es : List Expr) (top : Expr) :
      Lifts pool { statements := ss, stack := top :: es } .returnValue
        { statements := ss ++ [.exit (some top)] }

theorem Block.step_setLocal (pool : Pool) (index : Nat) (ss : List Statement) (top : Expr)
    (es : List Expr) (i : UInt32) :
    step pool index { statements := ss, stack := top :: es } (.setLocal i) =
      if es.any (·.readsLocal i) then .error (.unsupportedOp (.setLocal i) index)
      else .ok { statements := ss ++ [.setLocal i top], stack := es } := rfl

/-- A step that succeeds is one of these ways. -/
theorem lifts_of_step {pool : Pool} {index : Nat} {b b' : Block} {op : Op}
    (h : b.step pool index op = .ok b') : Lifts pool b op b' := by
  obtain ⟨ss, es⟩ := b
  cases op with
  | nop => cases h; exact .nop _
  | label => cases h; exact .label _
  | branch kind offset => cases h
  | push value => cases h; exact .push ss es value
  | pushPooled kind entry =>
    have hstep : Block.step pool index { statements := ss, stack := es } (.pushPooled kind entry) =
        (pool.constant kind entry).map
          fun value => { statements := ss, stack := .constant value :: es } := rfl
    rw [hstep, Pool.constant] at h
    cases hfound : pool.constant? kind entry with
    | none => rw [hfound] at h; cases h
    | some value => rw [hfound] at h; cases h; exact .pushPooled ss es hfound
  | getLocal i => cases h; exact .getLocal ss es i
  | returnVoid => cases h; exact .returnVoid ss es
  | pop =>
    cases es with
    | nil => cases h
    | cons top es => cases h; exact .pop ss es top
  | dup =>
    cases es with
    | nil => cases h
    | cons top es => cases h; exact .dup ss es top
  | swap =>
    rcases es with _ | ⟨top, _ | ⟨below, es⟩⟩
    · cases h
    · cases h
    · cases h; exact .swap ss es top below
  | setLocal i =>
    cases es with
    | nil => cases h
    | cons top es =>
      rw [Block.step_setLocal] at h
      cases hreads : es.any (·.readsLocal i) with
      | true => rw [hreads, if_pos rfl] at h; cases h
      | false =>
        rw [hreads, if_neg Bool.false_ne_true] at h
        cases h
        exact .setLocal ss es top hreads
  | convert conversion =>
    cases es with
    | nil => cases h
    | cons top es => cases h; exact .convert ss es top conversion
  | unary op =>
    cases es with
    | nil => cases h
    | cons top es => cases h; exact .unary ss es top op
  | binary op =>
    rcases es with _ | ⟨rhs, _ | ⟨lhs, es⟩⟩
    · cases h
    · cases h
    · cases h; exact .binary ss es lhs rhs op
  | returnValue =>
    cases es with
    | nil => cases h
    | cons top es => cases h; exact .returnValue ss es top

/-- A run that succeeds begins with one of these ways. A return ends it. -/
theorem Block.lifts_of_run {pool : Pool} {op : Op} {ops : List Op} {index : Nat} {b b' : Block}
    (h : b.run pool index (op :: ops) = .ok b') :
    ∃ next, Lifts pool b op next ∧ (op.isReturn = true ∧ b' = next ∨
      op.isReturn = false ∧ next.run pool (index + 1) ops = .ok b') := by
  unfold Block.run at h
  cases hstep : b.step pool index op with
  | error err => rw [hstep] at h; cases h
  | ok next =>
    rw [hstep] at h
    refine ⟨next, lifts_of_step hstep, ?_⟩
    cases hreturn : op.isReturn with
    | true =>
      simp only [hreturn] at h
      cases h
      exact .inl ⟨rfl, rfl⟩
    | false =>
      simp only [hreturn] at h
      exact .inr ⟨rfl, h⟩

/-! ## What lifting makes -/

/-- A property of the expressions that operations build. -/
structure HoldsOfLifted (pool : Pool) (P : Expr → Prop) : Prop where
  immediate : ∀ value : Immediate, P (.constant value.constant)
  pooled : ∀ {kind : PoolKind} {entry : UInt32} {value : Constant},
    pool.constant? kind entry = some value → P (.constant value)
  getLocal : ∀ i, P (.getLocal i .any)
  unary : ∀ op operand, P (.unary op operand)
  binary : ∀ op lhs rhs, P (.ofBinary op lhs rhs)
  convert : ∀ operand conversion, P (.convert operand conversion)

/-- What operations build is all there is in a block. -/
theorem Lifts.everywhere {pool : Pool} {P : Expr → Prop} (hP : HoldsOfLifted pool P)
    {b b' : Block} {op : Op} (h : Lifts pool b op b') (hb : b.Everywhere P) : b'.Everywhere P := by
  have hes := hb.stack
  cases h with
  | nop => exact hb
  | label => exact hb
  | push ss es value => exact ⟨hb.statements, List.forall_mem_cons.mpr ⟨hP.immediate value, hes⟩⟩
  | pushPooled ss es found =>
    exact ⟨hb.statements, List.forall_mem_cons.mpr ⟨hP.pooled found, hes⟩⟩
  | getLocal ss es i => exact ⟨hb.statements, List.forall_mem_cons.mpr ⟨hP.getLocal i, hes⟩⟩
  | dup =>
    obtain ⟨htop, _⟩ := List.forall_mem_cons.mp hes
    exact ⟨hb.statements, List.forall_mem_cons.mpr ⟨htop, hes⟩⟩
  | swap =>
    obtain ⟨htop, hes⟩ := List.forall_mem_cons.mp hes
    obtain ⟨hbelow, hes⟩ := List.forall_mem_cons.mp hes
    exact ⟨hb.statements, List.forall_mem_cons.mpr ⟨hbelow, List.forall_mem_cons.mpr ⟨htop, hes⟩⟩⟩
  | convert ss es top conversion =>
    obtain ⟨htop, hes⟩ := List.forall_mem_cons.mp hes
    exact ⟨hb.statements, List.forall_mem_cons.mpr ⟨⟨hP.convert top conversion, htop⟩, hes⟩⟩
  | unary ss es top op =>
    obtain ⟨htop, hes⟩ := List.forall_mem_cons.mp hes
    exact ⟨hb.statements, List.forall_mem_cons.mpr ⟨⟨hP.unary op top, htop⟩, hes⟩⟩
  | binary ss es lhs rhs op =>
    obtain ⟨hrhs, hes⟩ := List.forall_mem_cons.mp hes
    obtain ⟨hlhs, hes⟩ := List.forall_mem_cons.mp hes
    exact ⟨hb.statements, List.forall_mem_cons.mpr ⟨⟨hP.binary op lhs rhs, hlhs, hrhs⟩, hes⟩⟩
  | pop =>
    obtain ⟨htop, hes⟩ := List.forall_mem_cons.mp hes
    exact hb.append htop hes
  | setLocal =>
    obtain ⟨htop, hes⟩ := List.forall_mem_cons.mp hes
    exact hb.append htop hes
  | returnVoid => exact hb.append nofun (List.forall_mem_nil _)
  | returnValue =>
    obtain ⟨htop, _⟩ := List.forall_mem_cons.mp hes
    exact hb.append (fun e he => Option.some.inj he ▸ htop) (List.forall_mem_nil _)

theorem Block.everywhere_of_run {pool : Pool} {P : Expr → Prop} (hP : HoldsOfLifted pool P)
    {code : List Op} {index : Nat} {b b' : Block} (h : b.run pool index code = .ok b')
    (hb : b.Everywhere P) : b'.Everywhere P := by
  induction code generalizing index b with
  | nil => cases h; exact hb
  | cons op ops ih =>
    obtain ⟨next, hlifts, ⟨-, rfl⟩ | ⟨-, hrest⟩⟩ := Block.lifts_of_run h
    · exact hlifts.everywhere hP hb
    · exact ih hrest (hlifts.everywhere hP hb)

/-- **What lifting makes** has every property of the expressions that operations build. -/
theorem everywhere_of_lift {pool : Pool} {P : Expr → Prop} (hP : HoldsOfLifted pool P)
    {code : List Op} {b : Block} (h : lift pool code = .ok b) : b.Everywhere P :=
  Block.everywhere_of_run hP h ⟨List.forall_mem_nil _, List.forall_mem_nil _⟩

/-! ## The block so far means the machine so far -/

namespace Interpretation

variable (I : Interpretation)

/-- Expressions on the stack keep their values when a local is written that none of them reads. -/
theorem map_eval_update {registers : UInt32 → I.Value} {index : UInt32} {value : I.Value}
    {stack : List Expr} (h : stack.any (·.readsLocal index) = false) :
    stack.map (I.eval (Function.update registers index value)) = stack.map (I.eval registers) := by
  refine List.map_congr_left fun e he => I.eval_update ?_
  rw [List.any_eq_false] at h
  simpa using h e he

/-- **One operation.** What it does to the block is what it does to the machine. -/
theorem step_meaning {pool : Pool} {b b' : Block} {op : Op} (h : Lifts pool b op b')
    (registers : UInt32 → I.Value) :
    I.step pool op (I.meaning registers b) = some (I.meaning registers b') := by
  cases h with
  | nop => rfl
  | label => rfl
  | push => rfl
  | pushPooled ss es found => exact I.step_pushPooled found _
  | dup => rfl
  | swap => rfl
  | getLocal => rfl
  | convert => rfl
  | unary => rfl
  | binary => rfl
  | pop => rw [meaning_mk, meaning_mk, afterStatements_append]; rfl
  | returnVoid => rw [meaning_mk, meaning_mk, afterStatements_append]; rfl
  | returnValue => rw [meaning_mk, meaning_mk, afterStatements_append]; rfl
  | setLocal ss es top unread =>
    rw [meaning_mk, meaning_mk, afterStatements_append]
    -- the pending expressions are computed after the write, and do not see it
    simp only [exec, I.map_eval_update unread]
    rfl

theorem run_meaning {pool : Pool} {code : List Op} {index : Nat} {b b' : Block}
    (h : b.run pool index code = .ok b') (registers : UInt32 → I.Value) :
    I.run pool code (I.meaning registers b) = some (I.meaning registers b') := by
  induction code generalizing index b with
  | nil => cases h; rfl
  | cons op ops ih =>
    obtain ⟨next, hlifts, ⟨hreturn, rfl⟩ | ⟨hreturn, hrest⟩⟩ := Block.lifts_of_run h
    · exact I.run_return (I.step_meaning hlifts registers) hreturn
    · rw [I.run_cons (I.step_meaning hlifts registers) hreturn]
      exact ih hrest

/-- **A lifted block means what its code does**, from an empty stack up to the first return. -/
theorem run_lift {pool : Pool} {code : List Op} {b : Block} (h : lift pool code = .ok b)
    (registers : UInt32 → I.Value) :
    I.run pool code { registers } = some (I.meaning registers b) := by
  have hstart : I.meaning registers {} = { registers } := rfl
  rw [← hstart]
  exact I.run_meaning h registers

end Interpretation

end Swf.Abc
