import Swf.Proofs.Abc.Growth
import Swf.Proofs.Abc.Resident
import Mathlib.Data.List.Basic
import Mathlib.Data.List.TakeWhile

/-!
# Indices for good

Code refers to its literals by bare indices, so an index must mean the same literal for as long as
the pool lives. A pool is told here by the literals that were interned, in order, whatever tables
they went to (`Pool.after`). A table grows by the literals of its kind that it does not have, each
where it comes up for the first time (`Pool.table_internAll`); hence an index stays with its
literal, and the literal with its index (`Pool.interned_for_good`).

Emitting an expression interns its literals in the order of evaluation. Where it fails, at a local
that the method does not have, it has interned those in front of that local
(`Expr.poolAfter_emit`).
-/

namespace Swf.Abc

/-! ## Literals of any table -/

/-- A literal of one of the tables. -/
inductive Literal where
  | int (value : Int32)
  | uint (value : UInt32)
  | double (value : Double)
  | string (value : String)
deriving DecidableEq, Repr

namespace Literal

/-- The table that it belongs to. -/
def kind : Literal → PoolKind
  | .int _ => .int
  | .uint _ => .uint
  | .double _ => .double
  | .string _ => .string

/-- The constant that is found there. -/
def constant : Literal → Constant
  | .int value => .int value
  | .uint value => .uint value
  | .double value => .number value
  | .string value => .string value

theorem constant_inj {a b : Literal} (h : a.constant = b.constant) : a = b := by
  cases a <;> cases b <;> cases h <;> rfl

end Literal

namespace Table

variable {α : Type}

/-- The places that an index leads to. -/
theorem isSome_get?_iff {table : List α} {index : UInt32} :
    (get? table index).isSome ↔ 1 ≤ index.toNat ∧ index.toNat ≤ table.length := by
  unfold get?
  by_cases h0 : index = 0
  · subst h0
    simp
  · have hpos : index.toNat ≠ 0 := fun h => h0 (UInt32.toNat_inj.mp h)
    rw [if_neg h0, isSome_getElem?]
    omega

variable [DecidableEq α]

/-- What is in a table already keeps its index as the table goes on. -/
theorem indexOf_of_prefix {a : α} {table final : List α} (h : insert a table <+: final) :
    indexOf a final = indexOf a table := by
  obtain ⟨later, rfl⟩ := h
  unfold indexOf
  rw [List.idxOf_append_of_mem (mem_insert a table)]
  unfold insert
  split
  · rfl
  · next hnew => rw [List.idxOf_append, if_neg hnew, List.idxOf_eq_length hnew]; simp

/-- An injective map keeps the places. -/
theorem idxOf_map {β : Type} [DecidableEq β] {f : α → β} (hf : Function.Injective f) (a : α)
    (table : List α) : (table.map f).idxOf (f a) = table.idxOf a := by
  induction table with
  | nil => rfl
  | cons b table ih =>
    by_cases h : b = a
    · subst h
      simp
    · have hne : f b ≠ f a := fun he => h (hf he)
      rw [List.map_cons, List.idxOf_cons_ne _ hne, List.idxOf_cons_ne _ h, ih]

theorem insert_map {β : Type} [DecidableEq β] {f : α → β} (hf : Function.Injective f) (a : α)
    (table : List α) : insert (f a) (table.map f) = (insert a table).map f := by
  have hmem : f a ∈ table.map f ↔ a ∈ table := by
    rw [List.mem_map]
    exact ⟨fun ⟨b, hb, he⟩ => hf he ▸ hb, fun ha => ⟨a, ha, rfl⟩⟩
  unfold insert
  by_cases h : a ∈ table
  · rw [if_pos h, if_pos (hmem.mpr h)]
  · rw [if_neg h, if_neg (fun h' => h (hmem.mp h')), List.map_append, List.map_singleton]

end Table

namespace Pool

/-- A table, in the order of its indices. -/
def table (pool : Pool) : PoolKind → List Literal
  | .int => pool.ints.map .int
  | .uint => pool.uints.map .uint
  | .double => pool.doubles.map .double
  | .string => pool.strings.map .string

/-- The index of a literal, which is added to its table on first use. -/
def intern (literal : Literal) (pool : Pool) : UInt32 × Pool :=
  match literal with
  | .int value => pool.internInt value
  | .uint value => pool.internUInt value
  | .double value => pool.internDouble value
  | .string value => pool.internString value

/-- The pool after literals have been interned, one after the other. -/
def internAll (literals : List Literal) (pool : Pool) : Pool :=
  literals.foldl (fun pool literal => (pool.intern literal).2) pool

/-- The pool in which these literals were interned, and no others. -/
def after (literals : List Literal) : Pool := internAll literals {}

theorem intern_fst (a : Literal) (pool : Pool) :
    (pool.intern a).1 = Table.indexOf a (pool.table a.kind) := by
  cases a <;> exact congrArg (fun place => UInt32.ofNat (place + 1))
    (Table.idxOf_map (fun _ _ h => by cases h; rfl) _ _).symm

theorem table_intern_self (a : Literal) (pool : Pool) :
    (pool.intern a).2.table a.kind = Table.insert a (pool.table a.kind) := by
  cases a <;> exact (Table.insert_map (fun _ _ h => by cases h; rfl) _ _).symm

theorem table_intern_ne {a : Literal} {kind : PoolKind} (h : a.kind ≠ kind) (pool : Pool) :
    (pool.intern a).2.table kind = pool.table kind := by
  cases a <;> cases kind <;> first | rfl | exact absurd rfl h

/-- What is in the pool already changes nothing. -/
theorem intern_of_mem {a : Literal} {pool : Pool} (h : a ∈ pool.table a.kind) :
    (pool.intern a).2 = pool := by
  cases a <;>
  · obtain ⟨_, hmem, he⟩ := List.mem_map.mp h
    cases he
    simp only [intern, internInt, internUInt, internDouble, internString,
      Table.insert_of_mem hmem]

theorem constant?_eq (pool : Pool) (kind : PoolKind) (index : UInt32) :
    pool.constant? kind index = (Table.get? (pool.table kind) index).map Literal.constant := by
  cases kind <;>
  · simp only [constant?, table, Table.get?, List.getElem?_map]
    split
    · rfl
    · rw [Option.map_map]
      rfl

/-! ## Any number of calls -/

theorem internAll_cons (a : Literal) (literals : List Literal) (pool : Pool) :
    internAll (a :: literals) pool = internAll literals (pool.intern a).2 := rfl

theorem internAll_append (literals literals' : List Literal) (pool : Pool) :
    internAll (literals ++ literals') pool = internAll literals' (internAll literals pool) :=
  List.foldl_append

/-- Of some literals those of a kind that the pool does not have, each where it comes up for the
first time. -/
def news (pool : Pool) (kind : PoolKind) (literals : List Literal) : List Literal :=
  ((literals.filter (·.kind = kind)).filter (· ∉ pool.table kind)).eraseDups

/-- **A table grows** at its end, by what is new to it. -/
theorem table_internAll (literals : List Literal) (pool : Pool) (kind : PoolKind) :
    (internAll literals pool).table kind = pool.table kind ++ pool.news kind literals := by
  unfold news
  induction literals generalizing pool with
  | nil => simp [internAll]
  | cons a literals ih =>
    rw [internAll_cons, ih]
    by_cases hkind : a.kind = kind
    · subst hkind
      rw [table_intern_self, List.filter_cons_of_pos (by simp)]
      unfold Table.insert
      by_cases hmem : a ∈ pool.table a.kind
      · rw [if_pos hmem, List.filter_cons_of_neg (by simpa using hmem)]
      · -- what comes up again later is not new any more
        rw [if_neg hmem, List.filter_cons_of_pos (by simpa using hmem), List.eraseDups_cons,
          List.append_assoc, List.singleton_append, List.filter_filter (p := fun b => !b == a)]
        congr 3
        refine List.filter_congr fun b _ => ?_
        exact Bool.eq_iff_iff.mpr (by simp [and_comm])
    · rw [table_intern_ne hkind, List.filter_cons_of_neg (by simpa using hkind)]

theorem prefix_internAll (literals : List Literal) (pool : Pool) (kind : PoolKind) :
    pool.table kind <+: (internAll literals pool).table kind := by
  rw [table_internAll]
  exact List.prefix_append _ _

theorem nodup_internAll (literals : List Literal) {pool : Pool} {kind : PoolKind}
    (h : (pool.table kind).Nodup) : ((internAll literals pool).table kind).Nodup := by
  induction literals generalizing pool with
  | nil => exact h
  | cons a literals ih =>
    refine ih ?_
    by_cases hkind : a.kind = kind
    · subst hkind
      rw [table_intern_self]
      exact Table.nodup_insert h
    · rwa [table_intern_ne hkind]

theorem Addressable.table {pool : Pool} (h : pool.Addressable) (kind : PoolKind) :
    (pool.table kind).length < 2 ^ 32 := by
  cases kind
  · exact lt_of_eq_of_lt (List.length_map _) h.ints
  · exact lt_of_eq_of_lt (List.length_map _) h.uints
  · exact lt_of_eq_of_lt (List.length_map _) h.doubles
  · exact lt_of_eq_of_lt (List.length_map _) h.strings

/-! ## Looking up -/

theorem constant_eq_ok_iff {pool : Pool} {kind : PoolKind} {index : UInt32} {value : Constant} :
    pool.constant kind index = .ok value ↔ pool.constant? kind index = some value := by
  unfold constant
  cases pool.constant? kind index <;> simp

/-- A lookup succeeds for the indices from 1 to the size of the table. -/
theorem exists_constant_iff (pool : Pool) (kind : PoolKind) (index : UInt32) :
    (∃ value, pool.constant kind index = .ok value) ↔
      1 ≤ index.toNat ∧ index.toNat ≤ (pool.table kind).length := by
  rw [← Table.isSome_get?_iff]
  simp only [constant_eq_ok_iff, constant?_eq, Option.map_eq_some_iff, Option.isSome_iff_exists]
  exact ⟨fun ⟨_, a, h, _⟩ => ⟨a, h⟩, fun ⟨a, h⟩ => ⟨_, a, h, rfl⟩⟩

/-- Any other lookup says which entry is missing. -/
theorem constant_of_missing {pool : Pool} {kind : PoolKind} {index : UInt32}
    (h : ¬ ∃ value, pool.constant kind index = .ok value) :
    pool.constant kind index = .error (.missingConstant kind index) := by
  unfold constant at h ⊢
  cases hfound : pool.constant? kind index with
  | some value =>
    rw [hfound] at h
    exact absurd ⟨value, rfl⟩ h
  | none => rfl

/-! ## An index and its literal -/

variable {pool : Pool} {a : Literal}

/-- The table goes on from where the literal went in. -/
theorem prefix_insert_internAll (pool : Pool) (a : Literal) (later : List Literal) :
    Table.insert a (pool.table a.kind) <+: (internAll (a :: later) pool).table a.kind := by
  rw [← table_intern_self, internAll_cons]
  exact prefix_internAll later _ _

/-- The index that was given out leads to the literal, whatever is interned later. -/
theorem constant_of_interned {later : List Literal}
    (h : (internAll (a :: later) pool).Addressable) :
    (internAll (a :: later) pool).constant a.kind (pool.intern a).1 = .ok a.constant := by
  rw [constant_eq_ok_iff, constant?_eq, intern_fst,
    Table.get?_of_insert_prefix (prefix_insert_internAll pool a later) (h.table a.kind)]
  rfl

/-- Interning the literal again gives the same index and changes nothing. -/
theorem intern_again (pool : Pool) (a : Literal) (later : List Literal) :
    (internAll (a :: later) pool).intern a = ((pool.intern a).1, internAll (a :: later) pool) := by
  have hprefix := prefix_insert_internAll pool a later
  have hmem := hprefix.subset (Table.mem_insert a _)
  refine Prod.ext ?_ (intern_of_mem hmem)
  rw [intern_fst, intern_fst, Table.indexOf_of_prefix hprefix]

/-- Of two literals of one kind, each keeps its index to itself. -/
theorem index_inj {between later : List Literal} {b : Literal} (hkind : a.kind = b.kind)
    (h : (internAll (a :: (between ++ b :: later)) pool).Addressable) :
    (pool.intern a).1 = ((internAll (a :: between) pool).intern b).1 ↔ a = b := by
  constructor
  · intro hsame
    have hfirst := constant_of_interned h
    have hsplit : internAll (a :: (between ++ b :: later)) pool =
        internAll (b :: later) (internAll (a :: between) pool) :=
      internAll_append (a :: between) (b :: later) pool
    rw [hsplit] at h
    have hsecond := constant_of_interned h
    rw [hsplit, hsame, hkind, hsecond] at hfirst
    exact (Literal.constant_inj (Except.ok.inj hfirst)).symm
  · rintro rfl
    rw [intern_again]

end Pool

/-! ## Emission -/

/-- The pool that an emission leaves, whether it succeeds or fails. -/
def Emitter.poolAfter {α : Type} (m : Emitter α) (pool : Pool) : Pool :=
  match m pool with
  | .ok _ pool' => pool'
  | .error _ pool' => pool'

/-- The literal that pushing a constant needs in the pool, if it does not fit the instruction. -/
def Constant.pooled? : Constant → Option Literal
  | .string value => some (.string value)
  | .int value => if -32768 ≤ value.toInt ∧ value.toInt < 32768 then none else some (.int value)
  | .uint value => some (.uint value)
  | .number value => if value.isNaN then none else some (.double value)
  | .boolean _ | .null | .undefined => none

theorem Constant.emit_eq (value : Constant) (pool : Pool) :
    ∃ op, value.emit pool = .ok op (Pool.internAll value.pooled?.toList pool) := by
  cases value with
  | string value => exact ⟨_, rfl⟩
  | uint value => exact ⟨_, rfl⟩
  | null => exact ⟨_, rfl⟩
  | undefined => exact ⟨_, rfl⟩
  | boolean value => cases value <;> exact ⟨_, rfl⟩
  | number value =>
    show ∃ op, (if value.isNaN = true then pure (.push .nan)
        else .pushPooled .double <$> modifyGet (Pool.internDouble value) : Emitter Op) pool =
      .ok op
        (Pool.internAll (if value.isNaN = true then none else some (.double value)).toList pool)
    by_cases hnan : value.isNaN = true
    · rw [if_pos hnan, if_pos hnan]
      exact ⟨_, rfl⟩
    · rw [if_neg hnan, if_neg hnan]
      exact ⟨_, rfl⟩
  | int value =>
    show ∃ op, emitInt value pool = .ok op (Pool.internAll
      (if -32768 ≤ value.toInt ∧ value.toInt < 32768 then none else some (.int value)).toList pool)
    unfold emitInt
    by_cases hbyte : -128 ≤ value.toInt ∧ value.toInt < 128
    · rw [if_pos hbyte, if_pos (by omega)]
      exact ⟨_, rfl⟩
    · by_cases hshort : -32768 ≤ value.toInt ∧ value.toInt < 32768
      · rw [if_neg hbyte, if_pos hshort, if_pos hshort]
        exact ⟨_, rfl⟩
      · rw [if_neg hbyte, if_neg hshort, if_neg hshort]
        exact ⟨_, rfl⟩

/-- What an expression is made of. -/
inductive Leaf where
  | constant (value : Constant)
  | getLocal (index : UInt32)
deriving DecidableEq, Repr

namespace Leaf

/-- Whether a method with `localCount` locals has it. -/
def fits (localCount : UInt32) : Leaf → Bool
  | .constant _ => true
  | .getLocal index => index < localCount

def pooled? : Leaf → Option Literal
  | .constant value => value.pooled?
  | .getLocal _ => none

end Leaf

namespace Expr

/-- The constants and locals of an expression in the order of evaluation. -/
def leaves : Expr → List Leaf
  | .constant value => [.constant value]
  | .getLocal index _ => [.getLocal index]
  | .unary _ operand => operand.leaves
  | .binary _ lhs rhs _ => lhs.leaves ++ rhs.leaves
  | .convert operand _ => operand.leaves

/-- The part that is emitted: everything in front of the first local that the method does not
have. -/
def emitted (localCount : UInt32) (e : Expr) : List Leaf := e.leaves.takeWhile (·.fits localCount)

end Expr

namespace Emitter

variable {α β : Type} {localCount : UInt32}

/-- `m` interns the literals of `leaves`, up to the first local that the method does not have; if
there is one it fails. -/
structure Interns (localCount : UInt32) (m : Emitter α) (leaves : List Leaf) : Prop where
  ok : (∀ leaf ∈ leaves, leaf.fits localCount) → ∀ pool,
    ∃ a, m pool = .ok a (Pool.internAll (leaves.filterMap Leaf.pooled?) pool)
  error : (∃ leaf ∈ leaves, ¬ leaf.fits localCount) → ∀ pool,
    ∃ err, m pool =
      .error err (Pool.internAll
        ((leaves.takeWhile (·.fits localCount)).filterMap Leaf.pooled?) pool)

namespace Interns

theorem pure (a : α) : Interns localCount (pure a) [] where
  ok _ _ := ⟨a, rfl⟩
  error h := by simp at h

/-- The second part comes up only if the first one has all of its locals. -/
theorem bind {m : Emitter α} {f : α → Emitter β} {leaves leaves' : List Leaf}
    (hm : Interns localCount m leaves) (hf : ∀ a, Interns localCount (f a) leaves') :
    Interns localCount (m >>= f) (leaves ++ leaves') where
  ok h pool := by
    obtain ⟨hfirst, hsecond⟩ := List.forall_mem_append.mp h
    obtain ⟨a, ha⟩ := hm.ok hfirst pool
    obtain ⟨b, hb⟩ := (hf a).ok hsecond (Pool.internAll (leaves.filterMap Leaf.pooled?) pool)
    exact ⟨b, by rw [bind_of_ok ha, hb, List.filterMap_append, Pool.internAll_append]⟩
  error h pool := by
    by_cases hfirst : ∀ leaf ∈ leaves, leaf.fits localCount
    · obtain ⟨leaf, hmem, hno⟩ := h
      have hmem' : leaf ∈ leaves' :=
        (List.mem_append.mp hmem).resolve_left fun hleaf => hno (hfirst leaf hleaf)
      obtain ⟨a, ha⟩ := hm.ok hfirst pool
      obtain ⟨err, herr⟩ :=
        (hf a).error ⟨leaf, hmem', hno⟩ (Pool.internAll (leaves.filterMap Leaf.pooled?) pool)
      refine ⟨err, ?_⟩
      rw [bind_of_ok ha, herr, List.takeWhile_append_of_pos hfirst, List.filterMap_append,
        Pool.internAll_append]
    · obtain ⟨leaf, hmem, hno⟩ : ∃ leaf ∈ leaves, ¬ leaf.fits localCount := by
        simpa using hfirst
      obtain ⟨err, herr⟩ := hm.error ⟨leaf, hmem, hno⟩ pool
      have hshort : (leaves.takeWhile (·.fits localCount)).length ≠ leaves.length := by
        intro hlen
        have hall := (List.takeWhile_sublist (Leaf.fits localCount)).eq_of_length hlen
        exact hno (List.takeWhile_eq_self_iff.mp hall leaf hmem)
      refine ⟨err, ?_⟩
      rw [bind_of_error herr, List.takeWhile_append, if_neg hshort]

/-- A last step that needs nothing. -/
theorem bind_pure {m : Emitter α} {leaves : List Leaf} (f : α → β)
    (hm : Interns localCount m leaves) :
    Interns localCount (m >>= fun a => Pure.pure (f a)) leaves := by
  have := hm.bind fun a => pure (f a)
  rwa [List.append_nil] at this

theorem constant (value : Constant) : Interns localCount value.emit [.constant value] where
  ok _ pool := by
    obtain ⟨op, hop⟩ := value.emit_eq pool
    exact ⟨op, by rw [hop]; cases h : value.pooled? <;> simp [Leaf.pooled?, h]⟩
  error h := by simp [Leaf.fits] at h

theorem checkLocal (index : UInt32) :
    Interns localCount (checkLocal localCount index) [.getLocal index] where
  ok h pool := by
    have hfits : index < localCount := by simpa [Leaf.fits] using h
    unfold Abc.checkLocal
    rw [if_pos hfits]
    exact ⟨_, rfl⟩
  error h pool := by
    have hno : ¬ index < localCount := by simpa [Leaf.fits] using h
    have hnone : [Leaf.getLocal index].takeWhile (·.fits localCount) = [] := by
      rw [List.takeWhile_cons_of_neg (by simpa [Leaf.fits] using hno)]
    unfold Abc.checkLocal
    rw [if_neg hno, hnone]
    exact ⟨_, rfl⟩

/-- **Emission** interns the literals of an expression from left to right. -/
theorem expr (localCount : UInt32) (e : Expr) :
    Interns localCount (e.emit localCount) e.leaves := by
  induction e with
  | constant value => exact (constant value).bind_pure _
  | getLocal index ty => exact (checkLocal index).bind_pure _
  | unary op operand ih => exact ih.bind_pure _
  | binary op lhs rhs ty ihl ihr => exact ihl.bind fun _ => ihr.bind_pure _
  | convert operand conversion ih => exact ih.bind_pure _

end Interns

end Emitter

namespace Expr

theorem emitted_eq_leaves_iff {localCount : UInt32} {e : Expr} :
    e.emitted localCount = e.leaves ↔ ∀ leaf ∈ e.leaves, leaf.fits localCount := by
  exact List.takeWhile_eq_self_iff

/-- What emission leaves in the pool, and when it succeeds. -/
theorem poolAfter_emit (localCount : UInt32) (e : Expr) (pool : Pool) :
    (e.emit localCount).poolAfter pool =
        Pool.internAll ((e.emitted localCount).filterMap Leaf.pooled?) pool ∧
      ((∃ ops pool', e.emit localCount pool = .ok ops pool') ↔
        e.emitted localCount = e.leaves) := by
  have hinterns := Emitter.Interns.expr localCount e
  unfold Emitter.poolAfter
  rw [emitted_eq_leaves_iff]
  by_cases hall : ∀ leaf ∈ e.leaves, leaf.fits localCount
  · obtain ⟨ops, hok⟩ := hinterns.ok hall pool
    rw [hok, emitted_eq_leaves_iff.mpr hall]
    exact ⟨rfl, fun _ => hall, fun _ => ⟨_, _, rfl⟩⟩
  · obtain ⟨err, herr⟩ := hinterns.error (by simpa using hall) pool
    rw [herr]
    refine ⟨rfl, fun hok => ?_, fun h => absurd h hall⟩
    obtain ⟨_, _, hok⟩ := hok
    cases hok

end Expr

namespace Pool

/-- **For good.** In a pool in which any literals were interned, no table holds one twice. The index
that a literal was given is at least 1 and leads to it whatever is interned later, and interning it
again gives this index and changes nothing; two literals of one kind have one index just if they are
the same. A lookup succeeds for the indices from 1 to the size of the table, and else says what is
missing. Emitting an expression adds to each table, at its end, the literals that are new to it, in
the order of evaluation; if it fails, those of the part that was emitted. The pool must not have run
out of indices. -/
theorem interned_for_good :
    (∀ literals kind, ((after literals).table kind).Nodup) ∧
    (∀ (before later : List Literal) (a : Literal) (index : UInt32) (final : Pool),
      ((after before).intern a).1 = index → after (before ++ a :: later) = final →
      final.Addressable →
      1 ≤ index.toNat ∧ final.constant a.kind index = .ok a.constant ∧
        final.intern a = (index, final)) ∧
    (∀ (before between later : List Literal) (a b : Literal), a.kind = b.kind →
      (after (before ++ a :: (between ++ b :: later))).Addressable →
      (((after before).intern a).1 = ((after (before ++ a :: between)).intern b).1 ↔ a = b)) ∧
    (∀ (pool : Pool) (kind : PoolKind) (index : UInt32),
      ((∃ value, pool.constant kind index = .ok value) ↔
        1 ≤ index.toNat ∧ index.toNat ≤ (pool.table kind).length) ∧
      ((¬ ∃ value, pool.constant kind index = .ok value) →
        pool.constant kind index = .error (.missingConstant kind index))) ∧
    ∀ (localCount : UInt32) (e : Expr) (pool : Pool) (literals : List Literal),
      literals = (e.emitted localCount).filterMap Leaf.pooled? →
      (e.emit localCount).poolAfter pool = internAll literals pool ∧
        (∀ kind, ((e.emit localCount).poolAfter pool).table kind =
          pool.table kind ++ pool.news kind literals) ∧
        ((∃ ops pool', e.emit localCount pool = .ok ops pool') ↔
          e.emitted localCount = e.leaves) := by
  refine ⟨fun literals kind => ?_, ?_, ?_, fun pool kind index =>
    ⟨exists_constant_iff pool kind index, constant_of_missing⟩, ?_⟩
  · refine nodup_internAll literals ?_
    cases kind <;> exact List.nodup_nil
  · rintro before later a _ _ rfl rfl hroom
    have hsplit : after (before ++ a :: later) = internAll (a :: later) (after before) :=
      internAll_append before (a :: later) {}
    rw [hsplit] at hroom ⊢
    have hfound := constant_of_interned hroom
    exact ⟨((exists_constant_iff _ _ _).mp ⟨_, hfound⟩).1, hfound, intern_again _ a later⟩
  · intro before between later a b hkind hroom
    have hsplit (literals : List Literal) :
        after (before ++ literals) = internAll literals (after before) :=
      internAll_append before literals {}
    rw [hsplit] at hroom ⊢
    exact index_inj hkind hroom
  · rintro localCount e pool _ rfl
    obtain ⟨hpool, hsuccess⟩ := e.poolAfter_emit localCount pool
    exact ⟨hpool, fun kind => by rw [hpool, table_internAll], hsuccess⟩

/-- Zeros of both signs with a string between them, the first one interned again later; and a sum
that fails at its second operand and leaves the literals of the first one. -/
theorem interned_for_good_zeros :
    ∃ final, after [.double ⟨0⟩, .string "a", .double ⟨0x8000000000000000⟩, .double ⟨0⟩] = final ∧
      (final.table .double).Nodup ∧
      final.constant .double 2 = .ok (.number ⟨0x8000000000000000⟩) ∧
      final.intern (.double ⟨0x8000000000000000⟩) = (2, final) ∧
      ((after []).intern (.double ⟨0⟩)).1 ≠
        ((after [.double ⟨0⟩, .string "a"]).intern (.double ⟨0x8000000000000000⟩)).1 ∧
      final.constant .int 1 = .error (.missingConstant .int 1) ∧
      ((Expr.binary .add (.binary .add (.constant (.string "b")) (.constant (.string "a")) .string)
        (.binary .add (.getLocal 3 .any) (.constant (.string "c")) .string) .string).emit 2
          |>.poolAfter final).table .string = [.string "a", .string "b"] := by
  obtain ⟨hnodup, hlasts, hinj, hlookup, hemit⟩ := interned_for_good
  have hroom : (after [.double ⟨0⟩, .string "a", .double ⟨0x8000000000000000⟩,
      .double ⟨0⟩]).Addressable :=
    ⟨by decide +kernel, by decide +kernel, by decide +kernel, by decide +kernel⟩
  obtain ⟨final, hfinal⟩ : ∃ final, after [.double ⟨0⟩, .string "a", .double ⟨0x8000000000000000⟩,
      .double ⟨0⟩] = final := ⟨_, rfl⟩
  have hindex :
      ((after [.double ⟨0⟩, .string "a"]).intern (.double ⟨0x8000000000000000⟩)).1 = 2 := by
    decide +kernel
  obtain ⟨-, hfound, hagain⟩ := hlasts [.double ⟨0⟩, .string "a"] [.double ⟨0⟩]
    (.double ⟨0x8000000000000000⟩) 2 final hindex hfinal (hfinal ▸ hroom)
  have hzeros := hinj [] [.string "a"] [.double ⟨0⟩] (.double ⟨0⟩) (.double ⟨0x8000000000000000⟩)
    rfl hroom
  refine ⟨final, hfinal, by rw [← hfinal]; exact hnodup _ _, hfound, hagain,
    fun hsame => absurd (hzeros.mp hsame) (by decide), (hlookup final .int 1).2 ?_, ?_⟩
  · rw [(hlookup final .int 1).1, ← hfinal]
    decide +kernel
  · rw [((hemit 2 _ final _ rfl).2.1 .string), ← hfinal]
    decide +kernel

end Pool

end Swf.Abc
