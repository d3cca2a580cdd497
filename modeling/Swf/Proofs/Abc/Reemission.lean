import Swf.Proofs.Abc.Emission
import Swf.Proofs.Abc.Lift

/-!
# Emitting what was lifted

Code that is lifted and emitted again does what it did before. Lifting keeps its meaning
(`Interpretation.run_lift`), and so does emission (`emit_block`) for blocks with resident literals
in which nothing stands behind the end of the method. It remains that lifting makes no other blocks:
a literal comes from an instruction or from the pool, and lifting stops at the first return.
-/

namespace Swf.Abc

/-- The literals that operations push are resident. -/
theorem lifted_emittable (pool : Pool) : HoldsOfLifted pool (Expr.Emittable pool) where
  immediate := fun value => Constant.resident_immediate value
  pooled := fun found => Constant.resident_of_constant? found
  getLocal := fun _ => trivial
  unary := fun _ _ => trivial
  binary := fun _ _ _ => trivial
  convert := fun _ _ => trivial

/-- An operation that does not return leaves the block open. -/
theorem Lifts.isOpen {pool : Pool} {b b' : Block} {op : Op} (h : Lifts pool b op b')
    (hop : op.isReturn = false) (hb : b.IsOpen) : b'.IsOpen := by
  unfold Block.IsOpen at *
  cases h with
  | pop => exact List.forall_mem_append.mpr ⟨hb, List.forall_mem_singleton.mpr rfl⟩
  | setLocal => exact List.forall_mem_append.mpr ⟨hb, List.forall_mem_singleton.mpr rfl⟩
  | returnVoid => cases hop
  | returnValue => cases hop
  | nop => exact hb
  | label => exact hb
  | push => exact hb
  | pushPooled => exact hb
  | dup => exact hb
  | swap => exact hb
  | getLocal => exact hb
  | convert => exact hb
  | unary => exact hb
  | binary => exact hb

/-- A return ends an open block. -/
theorem Lifts.wellEnded {pool : Pool} {b b' : Block} {op : Op} (h : Lifts pool b op b')
    (hop : op.isReturn = true) (hb : b.IsOpen) : b'.WellEnded := by
  cases h with
  | returnVoid ss => exact .inr ⟨ss, none, hb, rfl⟩
  | returnValue ss es top => exact .inr ⟨ss, some top, hb, rfl⟩
  | _ => cases hop

/-- Lifting stops at the first return, so nothing stands behind it. -/
theorem Block.wellEnded_of_run {pool : Pool} {code : List Op} {index : Nat} {b b' : Block}
    (h : b.run pool index code = .ok b') (hopen : b.IsOpen) : b'.WellEnded := by
  induction code generalizing index b with
  | nil => cases h; exact .inl hopen
  | cons op ops ih =>
    obtain ⟨next, hlifts, ⟨hreturn, rfl⟩ | ⟨hreturn, hrest⟩⟩ := Block.lifts_of_run h
    · exact hlifts.wellEnded hreturn hopen
    · exact ih hrest (hlifts.isOpen hreturn hopen)

/-- **Emitting what was lifted.** In a method that has all locals of a lifted block, code for the
block can be emitted. It needs nothing new in the pool, and in every interpretation and from all
registers it ends in the same machine as the code that was lifted. -/
theorem run_emit_of_lift {pool : Pool} {code : List Op} {b : Block} {localCount : UInt32}
    (h : lift pool code = .ok b) (hlocals : ∀ i, b.usesLocal i = true → i < localCount) :
    ∃ emitted, b.emit localCount pool = .ok emitted pool ∧
      ∀ (I : Interpretation) (registers : UInt32 → I.Value), ∃ s,
        I.run pool code { registers } = some s ∧ I.run pool emitted { registers } = some s := by
  have hresident := everywhere_of_lift (lifted_emittable pool) h
  have hended : b.WellEnded := Block.wellEnded_of_run h (List.forall_mem_nil _)
  obtain ⟨emitted, hemit, hrun⟩ := emit_block hresident hlocals hended
  exact ⟨emitted, hemit, fun I registers =>
    ⟨I.meaning registers b, I.run_lift h registers, hrun I registers⟩⟩

/-- A product that is pending while a local it does not read is written, and literals that come back
under other operations: a double that is not a number, and an integer with two indices. -/
theorem run_emit_of_lift_pending :
    let pool : Pool := { ints := [100000, 100000], doubles := [⟨0x7ff0000000000001⟩] }
    let code : List Op := [.getLocal 1, .pushPooled .int 2, .binary .multiply,
      .pushPooled .double 1, .setLocal 2, .dup, .binary .add, .returnValue, .pop]
    ∃ b, lift pool code = .ok b ∧ (∀ i, b.usesLocal i = true → i < 3) ∧
      ∃ emitted, b.emit 3 pool = .ok emitted pool ∧
        ∀ (I : Interpretation) (registers : UInt32 → I.Value), ∃ s,
          I.run pool code { registers } = some s ∧ I.run pool emitted { registers } = some s := by
  intro pool code
  let product : Expr := .ofBinary .multiply (.getLocal 1 .any) (.constant (.int 100000))
  have hlocals (i : UInt32) (h : Block.usesLocal i
      { statements := [.setLocal 2 (.constant (.number ⟨0x7ff0000000000001⟩)),
        .exit (some (.ofBinary .add product product))] } = true) : i < 3 := by
    have hi : 2 = i ∨ 1 = i := by
      simpa [product, Block.usesLocal, Statement.usesLocal, Expr.ofBinary, Expr.readsLocal] using h
    rcases hi with rfl | rfl <;> decide
  exact ⟨_, rfl, hlocals, run_emit_of_lift rfl hlocals⟩

end Swf.Abc
