import Swf.Abc.Error

/-!
# The constant pool

The literals of a file, one table per kind, shared by all of its methods. A table holds no value
twice and only grows at its end, so the index of a value stays good. Index 0 is reserved in every
table: the first entry has index 1.

Doubles are told apart by their words, so that zeros of both signs have entries of their own.
-/

namespace Swf.Abc

/-- The constants of a file, each table in the order of its indices. -/
structure Pool where
  ints : List Int32 := []
  uints : List UInt32 := []
  doubles : List Double := []
  strings : List String := []
deriving DecidableEq, Repr

namespace Table

variable {α : Type}

/-- The entry of a table at an index. -/
def get? (table : List α) (index : UInt32) : Option α :=
  if index = 0 then none else table[index.toNat - 1]?

/-- An index that fits into 32 bits leads to the place that it was made from. -/
theorem get?_ofNat {table : List α} {place : Nat} (h : place + 1 < UInt32.size) :
    get? table (UInt32.ofNat (place + 1)) = table[place]? := by
  have hindex : (UInt32.ofNat (place + 1)).toNat = place + 1 := UInt32.toNat_ofNat_of_lt' h
  have hne : UInt32.ofNat (place + 1) ≠ 0 := by
    intro h0
    rw [h0] at hindex
    exact absurd hindex (by simp)
  unfold get?
  rw [if_neg hne, hindex, Nat.add_sub_cancel]

variable [DecidableEq α]

/-- The table with `a` in it; `a` goes to the end if it is new. -/
def insert (a : α) (table : List α) : List α := if a ∈ table then table else table ++ [a]

/-- The index that `a` has in a table once it is in it. -/
def indexOf (a : α) (table : List α) : UInt32 := UInt32.ofNat (table.idxOf a + 1)

/-- A table has `a` once it was inserted. -/
theorem mem_insert (a : α) (table : List α) : a ∈ insert a table := by
  unfold insert
  split
  · assumption
  · simp

/-- Nothing is in a table twice. -/
theorem nodup_insert {a : α} {table : List α} (h : table.Nodup) : (insert a table).Nodup := by
  unfold insert
  split
  · exact h
  · next ha =>
    simp only [List.nodup_append, h, List.nodup_cons, List.not_mem_nil, not_false_eq_true,
      List.nodup_nil, and_self, List.mem_singleton, true_and]
    exact fun x hx y hy he => ha (hy ▸ he ▸ hx)

/-- Entries stay where they are. -/
theorem prefix_insert (a : α) (table : List α) : table <+: insert a table := by
  unfold insert
  split
  · exact List.prefix_rfl
  · exact List.prefix_append ..

end Table

namespace Pool

/-- The index of an integer, which is added on first use. -/
def internInt (value : Int32) (pool : Pool) : UInt32 × Pool :=
  (Table.indexOf value pool.ints, { pool with ints := Table.insert value pool.ints })

/-- The index of an unsigned integer, which is added on first use. -/
def internUInt (value : UInt32) (pool : Pool) : UInt32 × Pool :=
  (Table.indexOf value pool.uints, { pool with uints := Table.insert value pool.uints })

/-- The index of a double, which is added on first use. -/
def internDouble (value : Double) (pool : Pool) : UInt32 × Pool :=
  (Table.indexOf value pool.doubles, { pool with doubles := Table.insert value pool.doubles })

/-- The index of a string, which is added on first use. -/
def internString (value : String) (pool : Pool) : UInt32 × Pool :=
  (Table.indexOf value pool.strings, { pool with strings := Table.insert value pool.strings })

/-- The constant at an index of a table, if there is one. -/
def constant? (pool : Pool) (kind : PoolKind) (index : UInt32) : Option Constant :=
  match kind with
  | .int => (Table.get? pool.ints index).map .int
  | .uint => (Table.get? pool.uints index).map .uint
  | .double => (Table.get? pool.doubles index).map .number
  | .string => (Table.get? pool.strings index).map .string

/-- The constant at an index of a table. -/
def constant (pool : Pool) (kind : PoolKind) (index : UInt32) : Except AbcError Constant :=
  match pool.constant? kind index with
  | some c => .ok c
  | none => .error (.missingConstant kind index)

/-- The number of entries of all tables. -/
def size (pool : Pool) : Nat :=
  pool.ints.length + pool.uints.length + pool.doubles.length + pool.strings.length

def isEmpty (pool : Pool) : Bool := pool.size == 0

end Pool

end Swf.Abc
