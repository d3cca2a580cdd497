import Swf.Proofs.Abc.Height
import Swf.Proofs.Abc.Lift
import Mathlib.Data.Finset.Basic

/-!
# Code that can be lifted

Whether code can be lifted is told without building an expression. It takes the height of the stack
in front of each operation, and for each value on the stack the set of locals that it is computed
from (`slots`). Lifting comes to the operations up to the first return (`Reaches`), takes each one
that is `Liftable`, and fails at the first one that is not, with an error that tells which of four
reasons it was (`Offence`).

Behind the operations so far, the expressions of the block are as many as the height says, and they
read what the slots say (`Tracks`). One operation keeps this (`Tracks.next`), also where it doubles
or exchanges values.
-/

namespace Swf.Abc

/-! ## What the stack holds -/

/-- The locals that an expression reads. -/
def Expr.locals : Expr → Finset UInt32
  | .constant _ => ∅
  | .getLocal index _ => {index}
  | .unary _ operand => operand.locals
  | .binary _ lhs rhs _ => lhs.locals ∪ rhs.locals
  | .convert operand _ => operand.locals

@[simp] theorem Expr.mem_locals {i : UInt32} {e : Expr} :
    i ∈ e.locals ↔ e.readsLocal i = true := by
  induction e with
  | constant value => simp [locals, readsLocal]
  | getLocal index ty =>
    rw [locals, Finset.mem_singleton, readsLocal, beq_iff_eq]
    exact eq_comm
  | unary op operand ih => exact ih
  | binary op lhs rhs ty ihl ihr => simp [locals, readsLocal, ihl, ihr]
  | convert operand conversion ih => exact ih

/-- The locals that the values on the stack are computed from, behind one more operation. -/
def track (stack : List (Finset UInt32)) (op : Op) : List (Finset UInt32) :=
  match op, stack with
  | .push _, stack | .pushPooled .., stack => ∅ :: stack
  | .getLocal i, stack => {i} :: stack
  | .pop, _ :: stack | .setLocal _, _ :: stack => stack
  | .dup, top :: stack => top :: top :: stack
  | .swap, top :: below :: stack => below :: top :: stack
  | .binary _, rhs :: lhs :: stack => (lhs ∪ rhs) :: stack
  | .returnVoid, _ | .returnValue, _ => []
  | _, stack => stack

/-- The locals that each value on the stack behind code is computed from, the top first. -/
def slots (code : List Op) : List (Finset UInt32) := code.foldl track []

theorem slots_concat (code : List Op) (op : Op) : slots (code ++ [op]) = track (slots code) op := by
  simp [slots]

/-! ## What can be lifted -/

/-- Code has an operation behind `before`, and no return in front of it. -/
def Reaches (code before : List Op) (op : Op) : Prop :=
  (∃ after, code = before ++ op :: after) ∧ ∀ earlier ∈ before, earlier.isReturn = false

/-- An operation that lifting takes behind `before`. -/
structure Liftable (pool : Pool) (before : List Op) (op : Op) : Prop where
  straight : op.isBranch = false
  /-- Its literal is in the pool. -/
  present : ∀ kind index, op = .pushPooled kind index → pool.constant? kind index ≠ none
  /-- It finds its operands. -/
  deep : op.pops ≤ height before
  /-- A local is not written while a value that is left on the stack is computed from it. -/
  unread : ∀ i, op = .setLocal i → ∀ slot ∈ (slots before).tail, i ∉ slot

/-- Why lifting does not take an operation behind `before`, and the error that says so. -/
inductive Offence (pool : Pool) (before : List Op) : Op → AbcError → Prop where
  | branch {op : Op} (h : op.isBranch = true) :
      Offence pool before op (.unsupportedOp op before.length)
  | absent {kind : PoolKind} {index : UInt32} (h : pool.constant? kind index = none) :
      Offence pool before (.pushPooled kind index) (.missingConstant kind index)
  | shallow {op : Op} (straight : op.isBranch = false) (h : height before < op.pops) :
      Offence pool before op (.stackUnderflow op before.length)
  | read {i : UInt32} {slot : Finset UInt32} (deep : 0 < height before)
      (hslot : slot ∈ (slots before).tail) (h : i ∈ slot) :
      Offence pool before (.setLocal i) (.unsupportedOp (.setLocal i) before.length)

/-- The first operation that lifting comes to and does not take. -/
structure FirstOffence (pool : Pool) (code before : List Op) (op : Op) : Prop where
  reached : Reaches code before op
  offends : ¬ Liftable pool before op
  earlier : ∀ before' op', Reaches code before' op' → before'.length < before.length →
    Liftable pool before' op'

theorem Offence.not_liftable {pool : Pool} {before : List Op} {op : Op} {err : AbcError}
    (h : Offence pool before op err) : ¬ Liftable pool before op := by
  intro hop
  cases h with
  | branch h => exact Bool.false_ne_true (hop.straight.symm.trans h)
  | absent h => exact hop.present _ _ rfl h
  | shallow _ h => exact Int.not_le.mpr h hop.deep
  | read _ hslot h => exact hop.unread _ rfl _ hslot h

theorem reaches_nil {before : List Op} {op : Op} : ¬ Reaches [] before op := by
  rintro ⟨⟨after, h⟩, -⟩
  simp at h

/-- The first operation is reached, and others are if it does not return. -/
theorem reaches_cons {first op : Op} {code before : List Op} :
    Reaches (first :: code) before op ↔
      before = [] ∧ op = first ∨
      first.isReturn = false ∧ ∃ later, before = first :: later ∧ Reaches code later op := by
  constructor
  · rintro ⟨⟨after, heq⟩, hbefore⟩
    cases before with
    | nil =>
      obtain ⟨rfl, -⟩ := List.cons.inj heq
      exact .inl ⟨rfl, rfl⟩
    | cons _ later =>
      obtain ⟨rfl, hrest⟩ := List.cons.inj heq
      obtain ⟨hfirst, hlater⟩ := List.forall_mem_cons.mp hbefore
      exact .inr ⟨hfirst, later, rfl, ⟨after, hrest⟩, hlater⟩
  · rintro (⟨rfl, rfl⟩ | ⟨hfirst, later, rfl, ⟨after, rfl⟩, hlater⟩)
    · exact ⟨⟨code, rfl⟩, List.forall_mem_nil _⟩
    · exact ⟨⟨after, rfl⟩, List.forall_mem_cons.mpr ⟨hfirst, hlater⟩⟩

/-! ## One operation -/

/-- A block whose stack is as high as the operations so far make it, and reads what they put
there. -/
structure Tracks (before : List Op) (b : Block) : Prop where
  length_eq : b.stack.length = height before
  locals_eq : b.stack.map Expr.locals = slots before

section Step

variable {pool : Pool} {before : List Op} {b b' : Block} {op : Op}

theorem tracks_start : Tracks [] {} := ⟨rfl, rfl⟩

/-- **One operation** keeps track, unless it ends the method. -/
theorem Tracks.next (h : Tracks before b) (hlifts : Lifts pool b op b')
    (hop : op.isReturn = false) : Tracks (before ++ [op]) b' := by
  have hlength := h.length_eq
  constructor
  · rw [height_append, height_cons, height_nil, ← hlength]
    cases hlifts with
    | returnVoid | returnValue => cases hop
    | _ =>
      simp only [Op.effect, Op.pops, Op.pushes, List.length_cons]
      omega
  · rw [slots_concat, ← h.locals_eq]
    cases hlifts with
    | returnVoid | returnValue => cases hop
    | _ => rfl

/-- The values behind the top one are computed from a local exactly if one of them reads it. -/
theorem Tracks.any_readsLocal {ss : List Statement} {top : Expr} {es : List Expr} {i : UInt32}
    (h : Tracks before { statements := ss, stack := top :: es }) :
    es.any (·.readsLocal i) = true ↔ ∃ slot ∈ (slots before).tail, i ∈ slot := by
  rw [← h.locals_eq]
  simp

/-- What was taken could be. -/
theorem Tracks.liftable (h : Tracks before b) (hlifts : Lifts pool b op b') :
    Liftable pool before op where
  straight := by cases hlifts <;> rfl
  present kind index heq := by
    cases hlifts with
    | pushPooled ss es found =>
      cases heq
      rw [found]
      exact Option.some_ne_none _
    | _ => cases heq
  deep := by
    rw [← h.length_eq]
    cases hlifts with
    | _ => simp [Op.pops] <;> omega
  unread i heq slot hslot hi := by
    cases hlifts with
    | setLocal ss es top unread =>
      cases heq
      have := h.any_readsLocal.mpr ⟨slot, hslot, hi⟩
      rw [unread] at this
      cases this
    | _ => cases heq

/-- What was not taken has one of the four reasons. -/
theorem Tracks.offence {err : AbcError} (h : Tracks before b)
    (hstep : b.step pool before.length op = .error err) : Offence pool before op err := by
  have hlength := h.length_eq
  obtain ⟨ss, es⟩ := b
  cases op with
  | nop | label | push | getLocal | returnVoid => cases hstep
  | branch kind offset => cases hstep; exact .branch rfl
  | pushPooled kind index =>
    have heq : Block.step pool before.length { statements := ss, stack := es }
        (.pushPooled kind index) = (pool.constant kind index).map
          fun value => { statements := ss, stack := .constant value :: es } := rfl
    rw [heq, Pool.constant] at hstep
    cases hfound : pool.constant? kind index with
    | none => rw [hfound] at hstep; cases hstep; exact .absent hfound
    | some value => rw [hfound] at hstep; cases hstep
  | setLocal i =>
    cases es with
    | nil => cases hstep; exact .shallow rfl (by simp [← hlength, Op.pops])
    | cons top es =>
      rw [Block.step_setLocal] at hstep
      cases hreads : es.any (·.readsLocal i) with
      | false => rw [hreads, if_neg Bool.false_ne_true] at hstep; cases hstep
      | true =>
        rw [hreads, if_pos rfl] at hstep
        cases hstep
        obtain ⟨slot, hslot, hi⟩ := h.any_readsLocal.mp hreads
        exact .read (by simp [← hlength]) hslot hi
  | pop | dup | convert | unary | returnValue =>
    cases es with
    | nil => cases hstep; exact .shallow rfl (by simp [← hlength, Op.pops])
    | cons top es => cases hstep
  | swap | binary =>
    rcases es with _ | ⟨top, _ | ⟨below, es⟩⟩
    · cases hstep; exact .shallow rfl (by simp [← hlength, Op.pops])
    · cases hstep; exact .shallow rfl (by simp [← hlength, Op.pops])
    · cases hstep

end Step

/-! ## All operations -/

section Run

variable {pool : Pool}

/-- A run that succeeds has taken every operation that it came to, and kept track up to a return. -/
theorem Tracks.of_run_ok {before code : List Op} {b b' : Block} (h : Tracks before b)
    (hrun : b.run pool before.length code = .ok b') :
    (∀ mid op, Reaches code mid op → Liftable pool (before ++ mid) op) ∧
      if code.any Op.isReturn then b'.stack = [] else Tracks (before ++ code) b' := by
  induction code generalizing before b with
  | nil =>
    cases hrun
    exact ⟨fun _ _ hreach => absurd hreach reaches_nil, by simpa using h⟩
  | cons op ops ih =>
    obtain ⟨next, hlifts, hrest⟩ := Block.lifts_of_run hrun
    have hop : Liftable pool before op := h.liftable hlifts
    rcases hrest with ⟨hreturn, rfl⟩ | ⟨hgoes, hrest⟩
    · -- nothing behind a return is reached
      refine ⟨fun mid op' hreach => ?_, ?_⟩
      · rcases reaches_cons.mp hreach with ⟨rfl, rfl⟩ | ⟨hgoes, -⟩
        · rwa [List.append_nil]
        · rw [hreturn] at hgoes; cases hgoes
      · rw [List.any_cons, hreturn, Bool.true_or, if_pos rfl]
        cases hlifts with
        | returnVoid | returnValue => rfl
        | _ => cases hreturn
    · have hnext : Tracks (before ++ [op]) next := h.next hlifts hgoes
      have hlength : (before ++ [op]).length = before.length + 1 := by simp
      rw [← hlength] at hrest
      obtain ⟨htaken, hend⟩ := ih hnext hrest
      refine ⟨fun mid op' hreach => ?_, ?_⟩
      · rcases reaches_cons.mp hreach with ⟨rfl, rfl⟩ | ⟨-, later, rfl, hlater⟩
        · rwa [List.append_nil]
        · have := htaken later op' hlater
          rwa [List.append_assoc] at this
      · rw [List.append_assoc] at hend
        rwa [List.any_cons, hgoes, Bool.false_or]

/-- A run that fails has come to an operation that it did not take, and taken all before. -/
theorem Tracks.of_run_error {before code : List Op} {b : Block} {err : AbcError}
    (h : Tracks before b) (hrun : b.run pool before.length code = .error err) :
    ∃ mid op, Reaches code mid op ∧ Offence pool (before ++ mid) op err ∧
      ∀ mid' op', Reaches code mid' op' → mid'.length < mid.length →
        Liftable pool (before ++ mid') op' := by
  induction code generalizing before b with
  | nil => cases hrun
  | cons op ops ih =>
    unfold Block.run at hrun
    cases hstep : b.step pool before.length op with
    | error err' =>
      rw [hstep] at hrun
      cases hrun
      refine ⟨[], op, reaches_cons.mpr (.inl ⟨rfl, rfl⟩), ?_, fun _ _ _ hlt => by cases hlt⟩
      rw [List.append_nil]
      exact h.offence hstep
    | ok next =>
      rw [hstep] at hrun
      have hlifts : Lifts pool b op next := lifts_of_step hstep
      cases hreturn : op.isReturn with
      | true => simp only [hreturn] at hrun; cases hrun
      | false =>
        simp only [hreturn] at hrun
        have hnext : Tracks (before ++ [op]) next := h.next hlifts hreturn
        have hlength : (before ++ [op]).length = before.length + 1 := by simp
        have hrest : next.run pool (before ++ [op]).length ops = .error err := by
          rw [hlength]
          exact hrun
        obtain ⟨mid, op', hreach, hoffence, hearlier⟩ := ih hnext hrest
        rw [List.append_assoc] at hoffence
        refine ⟨op :: mid, op', reaches_cons.mpr (.inr ⟨hreturn, mid, rfl, hreach⟩), hoffence,
          fun mid' op'' hreach' hlt => ?_⟩
        rcases reaches_cons.mp hreach' with ⟨rfl, rfl⟩ | ⟨-, later, rfl, hlater⟩
        · rw [List.append_nil]
          exact h.liftable hlifts
        · have := hearlier later op'' hlater (Nat.lt_of_succ_lt_succ hlt)
          rwa [List.append_assoc] at this

/-- **Failure** is that of the first operation that cannot be lifted. -/
theorem firstOffence_of_lift {code : List Op} {err : AbcError} (h : lift pool code = .error err) :
    ∃ before op, FirstOffence pool code before op ∧ Offence pool before op err := by
  obtain ⟨before, op, hreach, hoffence, hearlier⟩ := tracks_start.of_run_error h
  exact ⟨before, op, ⟨hreach, hoffence.not_liftable, hearlier⟩, hoffence⟩

/-- **Lifting is exact.** Code is lifted if and only if every operation up to the first return is
no branch, has its literal in the pool, finds its operands by the effects of the operations in front
of it, and writes no local that a value left on the stack is computed from. The final stack then has
the height of the code and reads the locals that were tracked, and behind a return it is empty. If
the code is not lifted, its first operation that is not so gives the error: a branch, a missing
literal, too few values, or a local that is still to be read. -/
theorem lift_exact (pool : Pool) (code : List Op) :
    ((∃ b, lift pool code = .ok b) ↔
      ∀ before op, Reaches code before op → Liftable pool before op) ∧
    (∀ b, lift pool code = .ok b →
      b.stack.length = (if code.any Op.isReturn then 0 else height code) ∧
      b.stack.map Expr.locals = if code.any Op.isReturn then [] else slots code) ∧
    ∀ err, lift pool code = .error err →
      ∃ before op, FirstOffence pool code before op ∧ Offence pool before op err := by
  refine ⟨⟨?_, fun hall => ?_⟩, fun b hb => ?_, fun err => firstOffence_of_lift⟩
  · rintro ⟨b, hb⟩
    exact (tracks_start.of_run_ok hb).1
  · cases hlift : lift pool code with
    | ok b => exact ⟨b, rfl⟩
    | error err =>
      obtain ⟨before, op, hfirst, -⟩ := firstOffence_of_lift hlift
      exact absurd (hall before op hfirst.reached) hfirst.offends
  · have hend := (tracks_start.of_run_ok hb).2
    cases hreturn : code.any Op.isReturn with
    | true =>
      rw [hreturn, if_pos rfl] at hend
      simp [hend]
    | false =>
      rw [hreturn, if_neg Bool.false_ne_true, List.nil_append] at hend
      exact ⟨hend.length_eq, hend.locals_eq⟩

/-- A sum is doubled and exchanged, and a local is written that it does not read. The local that it
reads can be written when it is gone; while it is pending, that write is the first offence. -/
theorem lift_exact_pending :
    let code : List Op := [.getLocal 1, .push (.byte 2), .binary .add, .dup, .push .true, .swap,
      .setLocal 2]
    let ended : List Op := code ++ [.swap, .pop, .setLocal 1, .returnVoid, .pop]
    (∃ b, lift {} code = .ok b ∧ b.stack.length = (2 : Int) ∧
      b.stack.map Expr.locals = [∅, {1}]) ∧
    (∃ b, lift {} ended = .ok b ∧ b.stack.length = (0 : Int)) ∧
    ∃ before op, FirstOffence {} (code ++ [.setLocal 1]) before op ∧
      Offence {} before op (.unsupportedOp (.setLocal 1) 7) := by
  intro code ended
  obtain ⟨hlength, hlocals⟩ := (lift_exact {} code).2.1 _ rfl
  obtain ⟨hnone, -⟩ := (lift_exact {} ended).2.1 _ rfl
  exact ⟨⟨_, rfl, hlength, hlocals⟩, ⟨_, rfl, hnone⟩,
    (lift_exact {} (code ++ [.setLocal 1])).2.2 _ rfl⟩

/-- **A missing literal is reported without its position.** The same error comes of the first and of
the second operation, so no error of this kind tells which operation it was. -/
theorem lift_error_without_position :
    lift {} [.pushPooled .string 3] = .error (.missingConstant .string 3) ∧
    lift {} [.push .null, .pushPooled .string 3] = .error (.missingConstant .string 3) ∧
    ¬ ∃ position : AbcError → Nat, ∀ pool code before op err, FirstOffence pool code before op →
      lift pool code = .error err → position err = before.length := by
  have hmissing (before : List Op) : ¬ Liftable {} before (.pushPooled .string 3) :=
    fun h => h.present _ _ rfl rfl
  refine ⟨rfl, rfl, fun ⟨position, hposition⟩ => ?_⟩
  have hfirst : FirstOffence {} [.pushPooled .string 3] [] (.pushPooled .string 3) :=
    ⟨⟨⟨[], rfl⟩, List.forall_mem_nil _⟩, hmissing _, fun _ _ _ hlt => by cases hlt⟩
  have hsecond : FirstOffence {} [.push .null, .pushPooled .string 3] [.push .null]
      (.pushPooled .string 3) := by
    refine ⟨⟨⟨[], rfl⟩, by decide⟩, hmissing _, fun before op hreach hlt => ?_⟩
    obtain rfl : before = [] := List.length_eq_zero_iff.mp (Nat.lt_one_iff.mp hlt)
    rcases reaches_cons.mp hreach with ⟨-, rfl⟩ | ⟨-, later, hcons, -⟩
    · exact ⟨rfl, nofun, by decide, nofun⟩
    · cases hcons
  have hzero := hposition _ _ _ _ _ hfirst rfl
  have hone := hposition _ _ _ _ _ hsecond rfl
  rw [hzero] at hone
  cases hone

end Run

end Swf.Abc
