import Swf.Proofs.Abc.Semantics
import Swf.Abc.Emission

/-!
# Literals that need no room in the pool

The index of a literal has 32 bits and the pool has no bound, so code for a literal need not push
that literal. A literal is **resident** if emitting it adds nothing to the pool and gives an
operation that pushes it. Whatever an operation can push in the first place is resident: it fits its
instruction (`Constant.resident_immediate`), or it has an index already
(`Constant.resident_of_constant?`), and interning it gives that index or an earlier one.
-/

namespace Swf.Abc

/-! ## Tables -/

namespace Table

variable {α : Type} [DecidableEq α]

theorem insert_of_mem {a : α} {table : List α} (h : a ∈ table) : insert a table = table := by
  unfold insert
  rw [if_pos h]

/-- An entry is found under the index that interning gives it, if it is found at all. -/
theorem get?_indexOf {a : α} {table : List α} {index : UInt32} (h : get? table index = some a) :
    a ∈ table ∧ get? table (indexOf a table) = some a := by
  unfold get? at h
  split at h
  · cases h
  · next hne =>
    have hmem : a ∈ table := List.mem_of_getElem? h
    obtain ⟨hlt, hget⟩ := List.getElem?_eq_some_iff.mp h
    -- the first place of the entry is not behind the one that was looked at
    have hfirst : table.idxOf a ≤ index.toNat - 1 := by
      rw [← Nat.not_lt]
      intro hbefore
      have := List.not_of_lt_findIdx hbefore
      rw [hget] at this
      simp at this
    have hlt' : table.idxOf a < table.length := List.idxOf_lt_length_of_mem hmem
    have hroom : table.idxOf a + 1 < UInt32.size := by
      have hpos : index.toNat ≠ 0 := fun h0 => hne (UInt32.toNat_inj.mp h0)
      have hsize : index.toNat < UInt32.size := index.toNat_lt
      omega
    refine ⟨hmem, ?_⟩
    unfold indexOf
    rw [get?_ofNat hroom, List.getElem?_eq_getElem hlt', List.getElem_idxOf]

end Table

/-! ## Literals -/

namespace Constant

/-- Emitting the literal adds nothing to the pool, and the operation pushes it. -/
def Resident (pool : Pool) (value : Constant) : Prop :=
  ∃ op, value.emit pool = .ok op pool ∧ op.isReturn = false ∧
    ∀ (I : Interpretation) (s : Machine I.Value),
      I.step pool op s = some { s with stack := I.literal value :: s.stack }

variable {pool : Pool}

/-- A literal that has a place in its instruction. -/
theorem resident_of_push {value : Constant} (immediate : Immediate)
    (h : value.emit pool = .ok (.push immediate) pool)
    (hsame : ∀ I : Interpretation, I.literal immediate.constant = I.literal value) :
    value.Resident pool :=
  ⟨_, h, rfl, fun I s => by rw [← hsame I]; rfl⟩

/-- A literal that has an index already. -/
theorem resident_of_pushPooled {value : Constant} (kind : PoolKind) (index : UInt32)
    (h : value.emit pool = .ok (.pushPooled kind index) pool)
    (hindex : pool.constant? kind index = some value) : value.Resident pool :=
  ⟨_, h, rfl, fun I s => I.step_pushPooled hindex s⟩

/-- A literal that is in its table. -/
theorem resident_of_interned {α : Type} [DecidableEq α] {table : List α}
    {literal : α → Constant} {a : α} {index : UInt32} (kind : PoolKind) (withTable : List α → Pool)
    (htable : withTable table = pool)
    (hemit : (literal a).emit pool =
      .ok (.pushPooled kind (Table.indexOf a table)) (withTable (Table.insert a table)))
    (hconstant : ∀ i, pool.constant? kind i = (Table.get? table i).map literal)
    (hget : Table.get? table index = some a) : (literal a).Resident pool := by
  obtain ⟨hmem, hfound⟩ := Table.get?_indexOf hget
  refine resident_of_pushPooled kind (Table.indexOf a table) ?_ ?_
  · rw [hemit, Table.insert_of_mem hmem, htable]
  · rw [hconstant, hfound]
    rfl

theorem toInt32_toInt8 {v : Int32} (h : -128 ≤ v.toInt ∧ v.toInt < 128) : v.toInt8.toInt32 = v := by
  apply Int32.toInt_inj.mp
  rw [Int8.toInt_toInt32, Int32.toInt_toInt8]
  exact Int.bmod_eq_of_le (by omega) (by omega)

theorem toInt32_toInt16 {v : Int32} (h : -32768 ≤ v.toInt ∧ v.toInt < 32768) :
    v.toInt16.toInt32 = v := by
  apply Int32.toInt_inj.mp
  rw [Int16.toInt_toInt32, Int32.toInt_toInt16]
  exact Int.bmod_eq_of_le (by omega) (by omega)

/-- An integer is resident if it is short, or in the pool. -/
theorem resident_int {v : Int32}
    (h : (-32768 ≤ v.toInt ∧ v.toInt < 32768) ∨ ∃ index, Table.get? pool.ints index = some v) :
    (Constant.int v).Resident pool := by
  by_cases hbyte : -128 ≤ v.toInt ∧ v.toInt < 128
  · refine resident_of_push (.byte v.toInt8) ?_ fun I => ?_
    · show emitInt v pool = _
      unfold emitInt
      rw [if_pos hbyte]
      rfl
    · show I.literal (.int v.toInt8.toInt32) = _
      rw [toInt32_toInt8 hbyte]
  · by_cases hshort : -32768 ≤ v.toInt ∧ v.toInt < 32768
    · refine resident_of_push (.short v.toInt16) ?_ fun I => ?_
      · show emitInt v pool = _
        unfold emitInt
        rw [if_neg hbyte, if_pos hshort]
        rfl
      · show I.literal (.int v.toInt16.toInt32) = _
        rw [toInt32_toInt16 hshort]
    · obtain ⟨index, hget⟩ := h.resolve_left hshort
      refine resident_of_interned .int (fun ints => { pool with ints }) rfl ?_ (fun _ => rfl) hget
      show emitInt v pool = _
      unfold emitInt
      rw [if_neg hbyte, if_neg hshort]
      rfl

/-- A double is resident if it is in the pool, or not a number at all. -/
theorem resident_number {d : Double}
    (h : d.isNaN = true ∨ ∃ index, Table.get? pool.doubles index = some d) :
    (Constant.number d).Resident pool := by
  have hemit : (Constant.number d).emit pool =
      (if d.isNaN = true then pure (.push .nan)
        else .pushPooled .double <$> modifyGet (Pool.internDouble d) : Emitter Op) pool := rfl
  by_cases hnan : d.isNaN = true
  · refine resident_of_push .nan ?_ fun I => (I.literal_nan d hnan).symm
    rw [hemit, if_pos hnan]
    rfl
  · obtain ⟨index, hget⟩ := h.resolve_left hnan
    refine resident_of_interned .double (fun doubles => { pool with doubles }) rfl ?_
      (fun _ => rfl) hget
    rw [hemit, if_neg hnan]
    rfl

/-- The literal of an instruction is resident in every pool. -/
theorem resident_immediate (value : Immediate) : value.constant.Resident pool := by
  cases value with
  | null => exact resident_of_push .null rfl fun _ => rfl
  | undefined => exact resident_of_push .undefined rfl fun _ => rfl
  | true => exact resident_of_push .true rfl fun _ => rfl
  | false => exact resident_of_push .false rfl fun _ => rfl
  | nan => exact resident_number (.inl (by decide))
  | byte v =>
    refine resident_int (.inl ?_)
    rw [Int8.toInt_toInt32]
    have := v.le_toInt
    have := v.toInt_lt
    omega
  | short v =>
    refine resident_int (.inl ?_)
    rw [Int16.toInt_toInt32]
    have := v.le_toInt
    have := v.toInt_lt
    omega

/-- What was found in a pool is resident there. -/
theorem resident_of_constant? {kind : PoolKind} {index : UInt32} {value : Constant}
    (h : pool.constant? kind index = some value) : value.Resident pool := by
  cases kind with
  | int =>
    obtain ⟨v, hget, rfl⟩ := Option.map_eq_some_iff.mp h
    exact resident_int (.inr ⟨index, hget⟩)
  | double =>
    obtain ⟨d, hget, rfl⟩ := Option.map_eq_some_iff.mp h
    exact resident_number (.inr ⟨index, hget⟩)
  | uint =>
    obtain ⟨v, hget, rfl⟩ := Option.map_eq_some_iff.mp h
    exact resident_of_interned .uint (fun uints => { pool with uints }) rfl rfl
      (fun _ => rfl) hget
  | string =>
    obtain ⟨v, hget, rfl⟩ := Option.map_eq_some_iff.mp h
    exact resident_of_interned .string (fun strings => { pool with strings }) rfl rfl
      (fun _ => rfl) hget

end Constant

end Swf.Abc
