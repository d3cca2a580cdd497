import Swf.Proofs.Abc.Emission
import Swf.Proofs.Abc.Height
import Mathlib.Algebra.Order.Ring.Nat
import Mathlib.Data.List.Forall2

/-!
# The shape of emitted code

Emission succeeds or fails for the locals alone, whatever is in the pool, and the pool decides about
the indices in the code but not about its shape. So a computation that emits is told by two things
(`Emitter.Yields`): when it succeeds, and what its result is like then. Both are put together as the
computation is.

Code for an expression has one operation for each of its parts and leaves one value. How many places
it takes on the stack is a function of the tree (`Expr.need`): the right operand of a binary
operation is computed above the value of the left one.
-/

namespace Swf.Abc

/-! ## Computations that emit -/

/-- A computation that succeeds exactly under a condition, in front of any pool, and then gives
something with a property. -/
structure Emitter.Yields {α : Type} (condition : Prop) (P : α → Prop) (m : Emitter α) : Prop where
  succeeds : condition → ∀ pool, ∃ a pool', m pool = .ok a pool'
  of_ok : ∀ {pool pool' : Pool} {a : α}, m pool = .ok a pool' → condition ∧ P a

namespace Emitter.Yields

variable {α β : Type} {c c' : Prop} {P : α → Prop} {Q : β → Prop} {m : Emitter α}

theorem pure {a : α} (h : P a) : Yields True P (pure a) where
  succeeds _ pool := ⟨a, pool, rfl⟩
  of_ok hok := by cases hok; exact ⟨trivial, h⟩

theorem modifyGet {f : Pool → α × Pool} (h : ∀ pool, P (f pool).1) :
    Yields True P (modifyGet f) where
  succeeds _ pool := ⟨_, _, rfl⟩
  of_ok {pool _ _} hok := by cases hok; exact ⟨trivial, h pool⟩

theorem bind {f : α → Emitter β} (hm : Yields c P m) (hf : ∀ a, P a → Yields c' Q (f a)) :
    Yields (c ∧ c') Q (m >>= f) where
  succeeds hc pool := by
    obtain ⟨a, pool₁, ha⟩ := hm.succeeds hc.1 pool
    obtain ⟨b, pool₂, hb⟩ := (hf a (hm.of_ok ha).2).succeeds hc.2 pool₁
    exact ⟨b, pool₂, by rw [bind_of_ok ha, hb]⟩
  of_ok hok := by
    obtain ⟨a, pool₁, ha, hb⟩ := ok_of_bind hok
    obtain ⟨hc, hP⟩ := hm.of_ok ha
    obtain ⟨hc', hQ⟩ := (hf a hP).of_ok hb
    exact ⟨⟨hc, hc'⟩, hQ⟩

theorem congr (hm : Yields c P m) (h : c ↔ c') : Yields c' P m where
  succeeds hc' := hm.succeeds (h.mpr hc')
  of_ok hok := ⟨h.mp (hm.of_ok hok).1, (hm.of_ok hok).2⟩

/-- What follows is no more than a change of the result. -/
theorem then_pure {g : α → β} (hm : Yields c P m) (hg : ∀ a, P a → Q (g a)) :
    Yields c Q (m >>= fun a => Pure.pure (g a)) :=
  (hm.bind fun a ha => pure (hg a ha)).congr (iff_of_eq (and_true c))

theorem map {g : α → β} (hm : Yields c P m) (hg : ∀ a, P a → Q (g a)) : Yields c Q (g <$> m) :=
  hm.then_pure hg

theorem ite {p : Prop} [Decidable p] {m' : Emitter α} (hm : Yields c P m) (hm' : Yields c P m') :
    Yields c P (if p then m else m') := by
  split
  · exact hm
  · exact hm'

theorem mapM {R : α → β → Prop} {ok : α → Prop} {f : α → Emitter β} (as : List α)
    (h : ∀ a ∈ as, Yields (ok a) (R a) (f a)) :
    Yields (∀ a ∈ as, ok a) (List.Forall₂ R as) (as.mapM f) := by
  induction as with
  | nil => exact (pure .nil).congr (iff_of_true trivial (List.forall_mem_nil _))
  | cons a as ih =>
    obtain ⟨ha, has⟩ := List.forall_mem_cons.mp h
    rw [List.mapM_cons]
    refine (ha.bind fun b hb => (ih has).map fun bs hbs => ?_).congr List.forall_mem_cons.symm
    exact .cons hb hbs

end Emitter.Yields

/-! ## Expressions -/

namespace Expr

/-- The number of parts of an expression, itself included. -/
def size : Expr → Nat
  | .constant _ | .getLocal .. => 1
  | .unary _ operand | .convert operand _ => operand.size + 1
  | .binary _ lhs rhs _ => lhs.size + rhs.size + 1

/-- How many places on the stack it takes to compute an expression. -/
def need : Expr → Nat
  | .constant _ | .getLocal .. => 1
  | .unary _ operand | .convert operand _ => operand.need
  | .binary _ lhs rhs _ => max lhs.need (1 + rhs.need)

theorem one_le_size (e : Expr) : 1 ≤ e.size := by
  cases e <;> simp [size]

theorem one_le_need (e : Expr) : 1 ≤ e.need := by
  induction e with
  | constant | getLocal => exact Nat.le_refl 1
  | unary _ _ ih | convert _ _ ih => exact ih
  | binary _ _ _ _ ihl _ => exact Nat.le_trans ihl (Nat.le_max_left ..)

end Expr

/-- An operation that does nothing but push one value. -/
structure Op.Pushes (op : Op) : Prop where
  pops_eq : op.pops = 0
  pushes_eq : op.pushes = 1
  isBranch_eq : op.isBranch = false
  isReturn_eq : op.isReturn = false

theorem Op.pushes_push (value : Immediate) : (Op.push value).Pushes := ⟨rfl, rfl, rfl, rfl⟩

theorem Op.pushes_pushPooled (kind : PoolKind) (index : UInt32) :
    (Op.pushPooled kind index).Pushes := ⟨rfl, rfl, rfl, rfl⟩

/-- Code like that of an expression: an operation for each part, no jumps, and one value in the
end. -/
structure Expr.Shapes (e : Expr) (ops : List Op) : Prop where
  length_eq : ops.length = e.size
  profile : Profile 1 e.need ops
  straight : ∀ op ∈ ops, op.isBranch = false ∧ op.isReturn = false

namespace Expr.Shapes

theorem constant {op : Op} (value : Constant) (h : op.Pushes) :
    (Expr.constant value).Shapes [op] where
  length_eq := rfl
  profile := by
    have hdepth : op.depthAfter 0 = 1 := by rw [Op.depthAfter, h.pops_eq, h.pushes_eq]
    exact Profile.nil.snoc (Nat.le_of_eq h.pops_eq) hdepth
  straight := List.forall_mem_singleton.mpr ⟨h.isBranch_eq, h.isReturn_eq⟩

theorem getLocal (index : UInt32) (ty : Ty) :
    (Expr.getLocal index ty).Shapes [.getLocal index] where
  length_eq := rfl
  profile := Profile.nil.snoc (Nat.le_refl 0) rfl
  straight := List.forall_mem_singleton.mpr ⟨rfl, rfl⟩

variable {operand lhs rhs : Expr} {ops left right : List Op}

theorem unary (op : UnaryOp) (h : operand.Shapes ops) :
    (Expr.unary op operand).Shapes (ops ++ [.unary op]) where
  length_eq := by simp [h.length_eq, size]
  profile := h.profile.snoc_of_le (Nat.le_refl 1) rfl operand.one_le_need
  straight := List.forall_mem_append.mpr ⟨h.straight, List.forall_mem_singleton.mpr ⟨rfl, rfl⟩⟩

theorem convert (conversion : Conversion) (h : operand.Shapes ops) :
    (Expr.convert operand conversion).Shapes (ops ++ [.convert conversion]) where
  length_eq := by simp [h.length_eq, size]
  profile := h.profile.snoc_of_le (Nat.le_refl 1) rfl operand.one_le_need
  straight := List.forall_mem_append.mpr ⟨h.straight, List.forall_mem_singleton.mpr ⟨rfl, rfl⟩⟩

/-- The right operand is computed on top of the left one. -/
theorem binary (op : BinaryOp) (ty : Ty) (hl : lhs.Shapes left) (hr : rhs.Shapes right) :
    (Expr.binary op lhs rhs ty).Shapes (left ++ right ++ [.binary op]) where
  length_eq := by simp [hl.length_eq, hr.length_eq, size, Nat.add_assoc]
  profile := (hl.profile.append hr.profile).snoc_of_le (Nat.le_refl 2) rfl
    (Nat.le_trans lhs.one_le_need (Nat.le_max_left ..))
  straight := List.forall_mem_append.mpr
    ⟨List.forall_mem_append.mpr ⟨hl.straight, hr.straight⟩,
      List.forall_mem_singleton.mpr ⟨rfl, rfl⟩⟩

end Expr.Shapes

namespace Emitter.Yields

/-- The index of a literal hangs on the pool, and the operation that pushes it does not. -/
theorem pooled (kind : PoolKind) (intern : Pool → UInt32 × Pool) :
    Yields True Op.Pushes (.pushPooled kind <$> MonadState.modifyGet intern) :=
  (modifyGet (P := fun _ => True) fun _ => trivial).map fun index _ =>
    Op.pushes_pushPooled kind index

theorem emitInt (value : Int32) : Yields True Op.Pushes (emitInt value) :=
  ite (pure (Op.pushes_push _)) (ite (pure (Op.pushes_push _)) (pooled .int _))

/-- A literal can always be emitted. -/
theorem constant (value : Constant) : Yields True Op.Pushes value.emit := by
  cases value with
  | int value => exact emitInt value
  | string value => exact pooled .string _
  | uint value => exact pooled .uint _
  | number value => exact ite (pure (Op.pushes_push _)) (pooled .double _)
  | boolean value => cases value <;> exact pure (Op.pushes_push _)
  | null => exact pure (Op.pushes_push _)
  | undefined => exact pure (Op.pushes_push _)

theorem checkLocal (localCount index : UInt32) :
    Yields (index < localCount) (fun _ => True) (checkLocal localCount index) where
  succeeds h pool := ⟨(), pool, checkLocal_of_lt h pool⟩
  of_ok {pool _ _} hok := by
    unfold Abc.checkLocal at hok
    split at hok
    · next h => exact ⟨h, trivial⟩
    · cases hok

/-- **Expressions** can be emitted if the method has the locals that they read. -/
theorem expr (localCount : UInt32) (e : Expr) :
    Yields (∀ i, e.readsLocal i = true → i < localCount) e.Shapes (e.emit localCount) := by
  induction e with
  | constant value =>
    refine ((constant value).then_pure fun op hop => .constant value hop).congr ?_
    simp [Expr.readsLocal]
  | getLocal index ty =>
    refine ((checkLocal localCount index).then_pure fun _ _ => .getLocal index ty).congr ?_
    simp [Expr.readsLocal]
  | unary op operand ih => exact ih.then_pure fun ops hops => hops.unary op
  | binary op lhs rhs ty ihl ihr =>
    refine (ihl.bind fun left hleft => ihr.then_pure fun right hright =>
      hleft.binary op ty hright).congr ?_
    simp [Expr.readsLocal, or_imp, forall_and]
  | convert operand conversion ih => exact ih.then_pure fun ops hops => hops.convert conversion

end Emitter.Yields

/-! ## Statements -/

namespace Statement

/-- The number of operations of a statement. -/
def size : Statement → Nat
  | .setLocal _ value | .discard value | .exit (some value) => value.size + 1
  | .exit none => 1

/-- How many places on the stack it takes to carry out a statement. -/
def need : Statement → Nat
  | .setLocal _ value | .discard value | .exit (some value) => value.need
  | .exit none => 0

/-- Code like that of a statement: it leaves no value. -/
structure Shapes (s : Statement) (ops : List Op) : Prop where
  length_eq : ops.length = s.size
  profile : Profile 0 s.need ops

/-- An operation behind an expression that takes its value away. -/
theorem Shapes.snoc {s : Statement} {value : Expr} {ops : List Op} {op : Op}
    (h : value.Shapes ops) (hpops : op.pops = 1) (hpushes : op.pushes = 0)
    (hsize : s.size = value.size + 1) (hneed : s.need = value.need) : s.Shapes (ops ++ [op]) where
  length_eq := by simp [h.length_eq, hsize]
  profile := by
    have hdepth : op.depthAfter 1 = 0 := by rw [Op.depthAfter, hpops, hpushes]
    rw [hneed]
    exact h.profile.snoc_of_le (Nat.le_of_eq hpops) hdepth (Nat.zero_le _)

end Statement

/-- **Statements** can be emitted if the method has the locals that they use. -/
theorem Emitter.Yields.statement (localCount : UInt32) (s : Statement) :
    Yields (∀ i, s.usesLocal i = true → i < localCount) s.Shapes (s.emit localCount) := by
  cases s with
  | setLocal index value =>
    refine ((checkLocal localCount index).bind fun _ _ => (expr localCount value).then_pure
      fun ops hops => Statement.Shapes.snoc hops rfl rfl rfl rfl).congr ?_
    simp [Statement.usesLocal, or_imp, forall_and]
  | discard value =>
    exact (expr localCount value).then_pure fun ops hops => .snoc hops rfl rfl rfl rfl
  | exit value =>
    cases value with
    | some value =>
      exact (expr localCount value).then_pure fun ops hops => .snoc hops rfl rfl rfl rfl
    | none =>
      have hreturn : Statement.Shapes (.exit none) [.returnVoid] :=
        ⟨rfl, Profile.nil.snoc (Nat.le_refl 0) rfl⟩
      exact (pure hreturn).congr (by simp [Statement.usesLocal])

/-! ## Blocks -/

/-- How many places it takes to compute expressions one after the other, each above the values of
those before it. -/
def pileNeed : List Expr → Nat
  | [] => 0
  | e :: es => max e.need (1 + pileNeed es)

/-- How many places it takes to carry out statements one after the other. -/
def rowNeed : List Statement → Nat
  | [] => 0
  | s :: ss => max s.need (rowNeed ss)

theorem profile_pile {es : List Expr} {codes : List (List Op)}
    (h : List.Forall₂ Expr.Shapes es codes) : Profile es.length (pileNeed es) codes.flatten := by
  induction h with
  | nil => exact .nil
  | cons hops _ ih =>
    rw [List.flatten_cons, List.length_cons, Nat.add_comm]
    exact hops.profile.append ih

theorem profile_row {ss : List Statement} {codes : List (List Op)}
    (h : List.Forall₂ Statement.Shapes ss codes) : Profile 0 (rowNeed ss) codes.flatten := by
  induction h with
  | nil => exact .nil
  | cons hops _ ih =>
    have := hops.profile.append ih
    rwa [Nat.zero_add, Nat.zero_add] at this

theorem length_flatten {α : Type} {size : α → Nat} {as : List α} {codes : List (List Op)}
    (h : List.Forall₂ (fun a ops => ops.length = size a) as codes) :
    codes.flatten.length = (as.map size).sum := by
  induction h with
  | nil => rfl
  | cons hops _ ih =>
    rw [List.flatten_cons, List.length_append, hops, ih, List.map_cons, List.sum_cons]

namespace Block

/-- The number of operations of a block. -/
def size (b : Block) : Nat := (b.statements.map Statement.size).sum + (b.stack.map Expr.size).sum

/-- How many places on the stack a block takes. Its values are computed from the bottom up. -/
def need (b : Block) : Nat := max (rowNeed b.statements) (pileNeed b.stack.reverse)

/-- Code like that of a block: it leaves the values of the block. -/
structure Shapes (b : Block) (code : List Op) : Prop where
  length_eq : code.length = b.size
  profile : Profile b.stack.length b.need code

end Block

/-- **Blocks** can be emitted if the method has the locals that they use. -/
theorem Emitter.Yields.block (localCount : UInt32) (b : Block) :
    Yields (∀ i, b.usesLocal i = true → i < localCount) b.Shapes (b.emit localCount) := by
  have hstatements := mapM b.statements fun s _ => statement localCount s
  have hvalues := mapM b.stack.reverse fun e _ => expr localCount e
  refine (hstatements.bind fun statements hss => hvalues.then_pure fun values hes => ?_).congr ?_
  · have hrow := profile_row hss
    have hpile := profile_pile hes
    constructor
    · rw [List.length_append, length_flatten (hss.imp fun _ _ h => h.length_eq),
        length_flatten (hes.imp fun _ _ h => h.length_eq), List.map_reverse, List.sum_reverse]
      rfl
    · have := hrow.append hpile
      rwa [List.length_reverse, Nat.zero_add, Nat.zero_add] at this
  · simp only [Block.usesLocal, Bool.or_eq_true, List.any_eq_true, List.mem_reverse]
    constructor
    · rintro ⟨hs, he⟩ i (⟨s, hmem, hi⟩ | ⟨e, hmem, hi⟩)
      · exact hs s hmem i hi
      · exact he e hmem i hi
    · exact fun h => ⟨fun s hmem i hi => h i (.inl ⟨s, hmem, hi⟩),
        fun e hmem i hi => h i (.inr ⟨e, hmem, hi⟩)⟩

end Swf.Abc
