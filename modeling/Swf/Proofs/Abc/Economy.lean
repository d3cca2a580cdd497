import Swf.Proofs.Abc.Shape
import Swf.Abc.Fold
import Mathlib.Algebra.Order.BigOperators.Group.List

/-!
# Folding never costs anything

What folding makes of an expression reads no other locals, has no more parts and takes no more
places on the stack (`Expr.Shrinks`). That holds for every rewrite at the root, with operands that
have shrunk already: a literal costs the least that an expression can cost, a conversion that is
dropped had an operation of its own, and where folding falls back on the expression nothing has
changed. What the stored types are does not matter.

So code for the folded expression can be emitted whenever code for the expression can be, and it is
not longer and needs no deeper stack. The same goes for blocks, statement by statement and value by
value.
-/

namespace Swf.Abc

/-! ## Expressions -/

namespace Expr

/-- An expression that costs at most what another one costs. -/
structure Shrinks (e' e : Expr) : Prop where
  readsLocal : ∀ i, e'.readsLocal i = true → e.readsLocal i = true
  size_le : e'.size ≤ e.size
  need_le : e'.need ≤ e.need

namespace Shrinks

theorem refl (e : Expr) : e.Shrinks e := ⟨fun _ h => h, Nat.le_refl _, Nat.le_refl _⟩

/-- Nothing costs less than a literal. -/
theorem constant (value : Constant) (e : Expr) : (Expr.constant value).Shrinks e where
  readsLocal _ h := by cases h
  size_le := e.one_le_size
  need_le := e.one_le_need

variable {operand operand' lhs lhs' rhs rhs' : Expr}

theorem unary (op : UnaryOp) (h : operand'.Shrinks operand) :
    (Expr.unary op operand').Shrinks (.unary op operand) where
  readsLocal := h.readsLocal
  size_le := Nat.succ_le_succ h.size_le
  need_le := h.need_le

theorem binary (op : BinaryOp) (ty' ty : Ty) (hl : lhs'.Shrinks lhs) (hr : rhs'.Shrinks rhs) :
    (Expr.binary op lhs' rhs' ty').Shrinks (.binary op lhs rhs ty) where
  readsLocal i h := by
    rw [Expr.readsLocal, Bool.or_eq_true] at h ⊢
    exact h.imp (hl.readsLocal i) (hr.readsLocal i)
  size_le := by
    have := hl.size_le
    have := hr.size_le
    simp only [size]
    omega
  need_le := by
    have := hl.need_le
    have := hr.need_le
    simp only [need]
    omega

theorem convert (conversion : Conversion) (h : operand'.Shrinks operand) :
    (Expr.convert operand' conversion).Shrinks (.convert operand conversion) where
  readsLocal := h.readsLocal
  size_le := Nat.succ_le_succ h.size_le
  need_le := h.need_le

/-- A conversion is dropped. -/
theorem dropped (conversion : Conversion) (h : operand'.Shrinks operand) :
    operand'.Shrinks (.convert operand conversion) where
  readsLocal := h.readsLocal
  size_le := Nat.le_succ_of_le h.size_le
  need_le := h.need_le

theorem keepingTy {e folded : Expr} (h : folded.Shrinks e) : (e.keepingTy folded).Shrinks e := by
  unfold Expr.keepingTy
  split
  · exact h
  · exact refl e

theorem foldUnary {op : UnaryOp} (h : operand'.Shrinks operand) :
    (Expr.foldUnary op operand').Shrinks (.unary op operand) := by
  unfold Expr.foldUnary
  split
  · exact constant _ _
  · exact unary op h

theorem foldBinary {op : BinaryOp} {ty : Ty} (hl : lhs'.Shrinks lhs) (hr : rhs'.Shrinks rhs) :
    (Expr.foldBinary op ty lhs' rhs').Shrinks (.binary op lhs rhs ty) := by
  unfold Expr.foldBinary
  split
  · exact constant _ _
  · exact binary op _ ty hl hr

theorem foldConvert {conversion : Conversion} (h : operand'.Shrinks operand) :
    (Expr.foldConvert conversion operand').Shrinks (.convert operand conversion) := by
  unfold Expr.foldConvert
  split
  · split
    · exact constant _ _
    · exact convert conversion h
  · split
    · exact dropped conversion h
    · exact convert conversion h

end Shrinks

/-- **Folding shrinks** an expression, whatever its stored types. -/
theorem shrinks_fold (e : Expr) : e.fold.Shrinks e := by
  induction e with
  | constant | getLocal => exact .refl _
  | unary op operand ih => exact ih.foldUnary.keepingTy
  | binary op lhs rhs ty ihl ihr => exact (ihl.foldBinary ihr).keepingTy
  | convert operand conversion ih => exact ih.foldConvert.keepingTy

end Expr

/-! ## Statements and blocks -/

/-- Whether an expression of the statement reads a local. -/
def Statement.readsLocal (index : UInt32) : Statement → Bool
  | .setLocal _ value | .discard value => value.readsLocal index
  | .exit value => value.any (·.readsLocal index)

/-- Whether an expression of the block reads a local. -/
def Block.readsLocal (index : UInt32) (b : Block) : Bool :=
  b.statements.any (·.readsLocal index) || b.stack.any (·.readsLocal index)

/-- **Statements** shrink with their expressions. -/
structure Statement.Shrinks (s' s : Statement) : Prop where
  readsLocal : ∀ i, s'.readsLocal i = true → s.readsLocal i = true
  usesLocal : ∀ i, s'.usesLocal i = true → s.usesLocal i = true
  size_le : s'.size ≤ s.size
  need_le : s'.need ≤ s.need

theorem Statement.shrinks_fold (s : Statement) : s.fold.Shrinks s := by
  cases s with
  | setLocal index value =>
    have h := value.shrinks_fold
    refine ⟨h.readsLocal, fun i hi => ?_, Nat.succ_le_succ h.size_le, h.need_le⟩
    rw [Statement.fold, usesLocal, Bool.or_eq_true] at hi
    rw [usesLocal, Bool.or_eq_true]
    exact hi.imp_right (h.readsLocal i)
  | discard value =>
    have h := value.shrinks_fold
    exact ⟨h.readsLocal, h.readsLocal, Nat.succ_le_succ h.size_le, h.need_le⟩
  | exit value =>
    cases value with
    | none => exact ⟨fun _ h => h, fun _ h => h, Nat.le_refl _, Nat.le_refl _⟩
    | some value =>
      have h := value.shrinks_fold
      exact ⟨h.readsLocal, h.readsLocal, Nat.succ_le_succ h.size_le, h.need_le⟩

theorem rowNeed_fold_le (ss : List Statement) : rowNeed (ss.map Statement.fold) ≤ rowNeed ss := by
  induction ss with
  | nil => exact Nat.le_refl 0
  | cons s ss ih =>
    have := s.shrinks_fold.need_le
    simp only [List.map_cons, rowNeed]
    omega

theorem pileNeed_fold_le (es : List Expr) : pileNeed (es.map Expr.fold) ≤ pileNeed es := by
  induction es with
  | nil => exact Nat.le_refl 0
  | cons e es ih =>
    have := e.shrinks_fold.need_le
    simp only [List.map_cons, pileNeed]
    omega

namespace Block

theorem any_fold {α : Type} {fold : α → α} {reads : α → Bool}
    (h : ∀ a, reads (fold a) = true → reads a = true) {as : List α}
    (has : (as.map fold).any reads = true) : as.any reads = true := by
  simp only [List.any_map, List.any_eq_true] at has ⊢
  obtain ⟨a, hmem, ha⟩ := has
  exact ⟨a, hmem, h a ha⟩

theorem readsLocal_of_fold {b : Block} {i : UInt32} (h : b.fold.readsLocal i = true) :
    b.readsLocal i = true := by
  rw [readsLocal, Bool.or_eq_true] at h ⊢
  exact h.imp (any_fold fun s => s.shrinks_fold.readsLocal i)
    (any_fold fun e => e.shrinks_fold.readsLocal i)

theorem usesLocal_of_fold {b : Block} {i : UInt32} (h : b.fold.usesLocal i = true) :
    b.usesLocal i = true := by
  rw [usesLocal, Bool.or_eq_true] at h ⊢
  exact h.imp (any_fold fun s => s.shrinks_fold.usesLocal i)
    (any_fold fun e => e.shrinks_fold.readsLocal i)

theorem size_fold_le (b : Block) : b.fold.size ≤ b.size := by
  simp only [size, fold, List.map_map]
  exact Nat.add_le_add (List.sum_le_sum fun s _ => s.shrinks_fold.size_le)
    (List.sum_le_sum fun e _ => e.shrinks_fold.size_le)

theorem need_fold_le (b : Block) : b.fold.need ≤ b.need := by
  have hrow := rowNeed_fold_le b.statements
  have hpile := pileNeed_fold_le b.stack.reverse
  simp only [need, fold]
  rw [← List.map_reverse]
  omega

end Block

/-! ## Emitted code -/

/-- Where one piece of code can be emitted, another one that is known to be no larger can be too. -/
theorem Emitter.Yields.exists_of_ok {c c' : Prop} {P P' : List Op → Prop}
    {m m' : Emitter (List Op)} (h : Yields c P m) (h' : Yields c' P' m') (hc : c → c')
    (hle : ∀ ops ops', P ops → P' ops' → ops'.length ≤ ops.length ∧ maxStack ops' ≤ maxStack ops)
    {pool pool₁ : Pool} {ops : List Op} (hok : m pool = .ok ops pool₁) (pool' : Pool) :
    ∃ ops' pool'₁, m' pool' = .ok ops' pool'₁ ∧
      ops'.length ≤ ops.length ∧ maxStack ops' ≤ maxStack ops := by
  obtain ⟨hlocals, hops⟩ := h.of_ok hok
  obtain ⟨ops', pool'₁, hok'⟩ := h'.succeeds (hc hlocals) pool'
  exact ⟨ops', pool'₁, hok', hle ops ops' hops (h'.of_ok hok').2⟩

/-- **Folding never costs anything.** A folded expression reads no local that the expression does
not read. If code for the expression can be emitted then code for the folded one can be, in the same
method and in front of any pool, and it has no more operations and takes no deeper stack. The stored
types of the expression may be any. The same holds of a block and all of its code. -/
theorem fold_costs_no_more :
    (∀ e : Expr, (∀ i, e.fold.readsLocal i = true → e.readsLocal i = true) ∧
      ∀ (localCount : UInt32) (pool pool₁ pool' : Pool) (ops : List Op),
        e.emit localCount pool = .ok ops pool₁ →
        ∃ ops' pool'₁, e.fold.emit localCount pool' = .ok ops' pool'₁ ∧
          ops'.length ≤ ops.length ∧ maxStack ops' ≤ maxStack ops) ∧
    ∀ b : Block, (∀ i, b.fold.readsLocal i = true → b.readsLocal i = true) ∧
      ∀ (localCount : UInt32) (pool pool₁ pool' : Pool) (code : List Op),
        b.emit localCount pool = .ok code pool₁ →
        ∃ code' pool'₁, b.fold.emit localCount pool' = .ok code' pool'₁ ∧
          code'.length ≤ code.length ∧ maxStack code' ≤ maxStack code := by
  refine ⟨fun e => ⟨e.shrinks_fold.readsLocal, fun localCount _ _ pool' _ hok => ?_⟩,
    fun b => ⟨fun _ => Block.readsLocal_of_fold, fun localCount _ _ pool' _ hok => ?_⟩⟩
  · refine (Emitter.Yields.expr localCount e).exists_of_ok (.expr localCount e.fold)
      (fun h i hi => h i (e.shrinks_fold.readsLocal i hi)) (fun ops ops' h h' => ?_) hok pool'
    rw [h.length_eq, h'.length_eq, h.profile.maxStack_eq, h'.profile.maxStack_eq]
    exact ⟨e.shrinks_fold.size_le, e.shrinks_fold.need_le⟩
  · refine (Emitter.Yields.block localCount b).exists_of_ok (.block localCount b.fold)
      (fun h i hi => h i (Block.usesLocal_of_fold hi)) (fun ops ops' h h' => ?_) hok pool'
    rw [h.length_eq, h'.length_eq, h.profile.maxStack_eq, h'.profile.maxStack_eq]
    exact ⟨b.size_fold_le, b.need_fold_le⟩

/-- A conversion is dropped and an operand becomes a literal, which needs another entry of the pool.
The sum at the root of the second value has a type that it cannot have, and stays as it is. -/
theorem fold_costs_no_more_dropped :
    let sum : Expr := .binary .add (.getLocal 1 .string)
      (.unary .typeOf (.constant (.int 70000))) .string
    let e : Expr := .convert sum .coerceString
    let b : Block := { statements := [.setLocal 0 e], stack := [.binary .add e e .object, e] }
    (∃ ops pool₁, e.emit 2 {} = .ok ops pool₁ ∧ ops.length = 5 ∧
      ∃ ops' pool'₁, e.fold.emit 2 pool₁ = .ok ops' pool'₁ ∧ ops'.length ≤ 5 ∧
        maxStack ops' ≤ maxStack ops) ∧
    ∃ code pool₁, b.emit 2 {} = .ok code pool₁ ∧ maxStack code = 4 ∧
      ∃ code' pool'₁, b.fold.emit 2 {} = .ok code' pool'₁ ∧ code'.length ≤ code.length ∧
        maxStack code' ≤ 4 := by
  intro sum e b
  exact ⟨⟨_, _, rfl, rfl, (fold_costs_no_more.1 e).2 2 {} _ _ _ rfl⟩,
    ⟨_, _, rfl, rfl, (fold_costs_no_more.2 b).2 2 {} _ _ _ rfl⟩⟩

end Swf.Abc
