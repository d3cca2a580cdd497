import Swf.Sequencing
import Swf.Abc.Emission
import Mathlib.Algebra.Order.Ring.Nat

/-!
# The pool only grows

Many methods share one pool, and code that was emitted early refers to it by indices. They stay
good: whatever is emitted later, and whether it fails or not, each table goes on from where it was
(`Pool.GrowsTo`), so that an index that was given out for a literal leads to this literal in every
later pool (`Table.get?_of_insert_prefix`).

An index has 32 bits, and 0 is none. So a table with `2 ^ 32` entries holds one that no index leads
to: the index of its last entry overflows. `Pool.Addressable` says that this has not happened. As
tables only grow, it is enough to know it of the last pool.
-/

namespace Swf.Abc

namespace Table

variable {α : Type} [DecidableEq α]

theorem getElem?_insert (a : α) (table : List α) : (insert a table)[table.idxOf a]? = some a := by
  unfold insert
  split
  · next hmem =>
    have hlt := List.idxOf_lt_length_of_mem hmem
    rw [List.getElem?_eq_getElem hlt, List.getElem_idxOf]
  · next hnew => rw [List.idxOf_eq_length hnew, List.getElem?_concat_length]

/-- An index that was given out leads to its entry in every table that goes on from there. -/
theorem get?_of_insert_prefix {a : α} {table final : List α} (h : insert a table <+: final)
    (hroom : final.length < 2 ^ 32) : get? final (indexOf a table) = some a := by
  have hget := getElem?_insert a table
  obtain ⟨hlt, -⟩ := List.getElem?_eq_some_iff.mp hget
  have hle := h.length_le
  obtain ⟨later, rfl⟩ := h
  unfold indexOf
  rw [get?_ofNat (by simp only [UInt32.size]; omega), List.getElem?_append_left hlt, hget]

end Table

namespace Pool

/-- Each table of `pool'` goes on from the one of `pool`. -/
structure GrowsTo (pool pool' : Pool) : Prop where
  ints : pool.ints <+: pool'.ints
  uints : pool.uints <+: pool'.uints
  doubles : pool.doubles <+: pool'.doubles
  strings : pool.strings <+: pool'.strings

/-- Every entry has an index. -/
structure Addressable (pool : Pool) : Prop where
  ints : pool.ints.length < 2 ^ 32
  uints : pool.uints.length < 2 ^ 32
  doubles : pool.doubles.length < 2 ^ 32
  strings : pool.strings.length < 2 ^ 32

theorem GrowsTo.refl (pool : Pool) : pool.GrowsTo pool :=
  ⟨List.prefix_rfl, List.prefix_rfl, List.prefix_rfl, List.prefix_rfl⟩

theorem GrowsTo.trans {pool pool' pool'' : Pool} (h : pool.GrowsTo pool')
    (h' : pool'.GrowsTo pool'') : pool.GrowsTo pool'' :=
  ⟨h.ints.trans h'.ints, h.uints.trans h'.uints, h.doubles.trans h'.doubles,
    h.strings.trans h'.strings⟩

theorem growsTo_internInt (value : Int32) (pool : Pool) :
    pool.GrowsTo (pool.internInt value).2 :=
  { GrowsTo.refl pool with ints := Table.prefix_insert value pool.ints }

theorem growsTo_internUInt (value : UInt32) (pool : Pool) :
    pool.GrowsTo (pool.internUInt value).2 :=
  { GrowsTo.refl pool with uints := Table.prefix_insert value pool.uints }

theorem growsTo_internDouble (value : Double) (pool : Pool) :
    pool.GrowsTo (pool.internDouble value).2 :=
  { GrowsTo.refl pool with doubles := Table.prefix_insert value pool.doubles }

theorem growsTo_internString (value : String) (pool : Pool) :
    pool.GrowsTo (pool.internString value).2 :=
  { GrowsTo.refl pool with strings := Table.prefix_insert value pool.strings }

end Pool

/-! ## Emission -/

/-- Whether `m` succeeds or fails, the pool goes on from where it was. -/
structure Emitter.Grows {α : Type} (m : Emitter α) : Prop where
  ok : ∀ {pool pool' : Pool} {a : α}, m pool = .ok a pool' → pool.GrowsTo pool'
  error : ∀ {pool pool' : Pool} {err : AbcError}, m pool = .error err pool' → pool.GrowsTo pool'

namespace Emitter.Grows

variable {α β : Type}

theorem pure (a : α) : Grows (pure a : Emitter α) where
  ok h := by cases h; exact Pool.GrowsTo.refl _
  error h := by cases h

theorem throw (err : AbcError) : Grows (throw err : Emitter α) where
  ok h := by cases h
  error h := by cases h; exact Pool.GrowsTo.refl _

theorem modifyGet {f : Pool → α × Pool} (h : ∀ pool : Pool, pool.GrowsTo (f pool).2) :
    Grows (modifyGet f : Emitter α) where
  ok {pool _ _} hok := by cases hok; exact h pool
  error hfail := by cases hfail

theorem bind {m : Emitter α} {f : α → Emitter β} (hm : Grows m) (hf : ∀ a, Grows (f a)) :
    Grows (m >>= f) where
  ok h := by
    obtain ⟨a, pool₁, hfirst, hsecond⟩ := ok_of_bind h
    exact (hm.ok hfirst).trans ((hf a).ok hsecond)
  error {pool _ _} h := by
    cases hfirst : m pool with
    | ok a pool₁ =>
      rw [bind_of_ok hfirst] at h
      exact (hm.ok hfirst).trans ((hf a).error h)
    | error err pool₁ =>
      rw [bind_of_error hfirst] at h
      cases h
      exact hm.error hfirst

theorem map {m : Emitter α} (f : α → β) (hm : Grows m) : Grows (f <$> m) :=
  hm.bind fun a => pure (f a)

theorem mapM {f : α → Emitter β} (h : ∀ a, Grows (f a)) (as : List α) : Grows (as.mapM f) := by
  induction as with
  | nil => exact pure []
  | cons a as ih =>
    rw [List.mapM_cons]
    exact (h a).bind fun _ => ih.bind fun _ => pure _

theorem ite {c : Prop} [Decidable c] {m m' : Emitter α} (hm : Grows m) (hm' : Grows m') :
    Grows (if c then m else m') := by
  split
  · exact hm
  · exact hm'

theorem emitInt (value : Int32) : Grows (emitInt value) :=
  ite (pure _) (ite (pure _) ((modifyGet (Pool.growsTo_internInt value)).map _))

theorem constant (value : Constant) : Grows value.emit := by
  cases value with
  | string value => exact (modifyGet (Pool.growsTo_internString value)).map _
  | int value => exact emitInt value
  | uint value => exact (modifyGet (Pool.growsTo_internUInt value)).map _
  | number value => exact ite (pure _) ((modifyGet (Pool.growsTo_internDouble value)).map _)
  | boolean value => cases value <;> exact pure _
  | null => exact pure _
  | undefined => exact pure _

theorem checkLocal (localCount index : UInt32) : Grows (checkLocal localCount index) :=
  ite (pure _) (throw _)

/-- The literals of an expression stay in the pool also when its emission fails. -/
theorem expr (localCount : UInt32) (e : Expr) : Grows (e.emit localCount) := by
  induction e with
  | constant value => exact (constant value).bind fun _ => pure _
  | getLocal index ty => exact (checkLocal localCount index).bind fun _ => pure _
  | unary op operand ih => exact ih.bind fun _ => pure _
  | binary op lhs rhs ty ihl ihr => exact ihl.bind fun _ => ihr.bind fun _ => pure _
  | convert operand conversion ih => exact ih.bind fun _ => pure _

theorem statement (localCount : UInt32) (s : Statement) : Grows (s.emit localCount) := by
  cases s with
  | setLocal index value =>
    exact (checkLocal localCount index).bind fun _ => (expr localCount value).bind fun _ => pure _
  | discard value => exact (expr localCount value).bind fun _ => pure _
  | exit value =>
    cases value with
    | none => exact pure _
    | some value => exact (expr localCount value).bind fun _ => pure _

end Emitter.Grows

end Swf.Abc
