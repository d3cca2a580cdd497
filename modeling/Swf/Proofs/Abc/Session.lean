import Swf.Proofs.Abc.Relift
import Swf.Abc.Method
import Mathlib.Logic.Function.Basic

/-!
# Many methods on one pool

The methods of a file are built in any order, a value here and a value there, and all of them put
their literals into one pool. A call that fails has changed the pool too. Each method lifts to the
values that came into it all the same: calls for other methods only add to the pool, and code that
was emitted before keeps its meaning then (`Session.liftsBack_call`). That is so for any number of
calls (`lift_of_emitted`).
-/

namespace Swf.Abc

/-- Methods under construction with their common pool. -/
structure Session (ι : Type) where
  pool : Pool
  body : ι → Method
  /-- The values that came into each method, in order. -/
  emitted : ι → List Expr

namespace Session

variable {ι : Type}

/-- Empty methods in front of a pool. -/
def start (localCount : ι → UInt32) (pool : Pool) : Session ι where
  pool := pool
  body i := { localCount := localCount i }
  emitted _ := []

/-- In every pool that may still come, the code of each method lifts to the values that came into
it. -/
def LiftsBack (s : Session ι) : Prop :=
  ∀ final : Pool, s.pool.GrowsTo final → final.Addressable → ∀ (i : ι) (rest : List Op),
    Block.run final 0 {} ((s.body i).code ++ rest) =
      Block.run final (s.body i).code.length
        { stack := ((s.emitted i).map Expr.erase).reverse } rest

theorem liftsBack_start (localCount : ι → UInt32) (pool : Pool) :
    (start localCount pool).LiftsBack := fun _ _ _ _ _ => rfl

variable [DecidableEq ι]

/-- One more value for a method. Where this fails the method stays as it was, and the pool does
not. -/
def call (s : Session ι) (i : ι) (e : Expr) : Session ι :=
  match (s.body i).emit e s.pool with
  | .ok body pool =>
    { pool
      body := Function.update s.body i body
      emitted := Function.update s.emitted i (s.emitted i ++ [e]) }
  | .error _ pool => { s with pool }

/-- Calls one after the other. -/
def run (s : Session ι) (calls : List (ι × Expr)) : Session ι :=
  calls.foldl (fun s call => s.call call.1 call.2) s

/-- **One call** keeps it so, whether it fails or not. -/
theorem liftsBack_call {s : Session ι} (h : s.LiftsBack) (i : ι) (e : Expr) :
    (s.call i e).LiftsBack := by
  have hgrows := Emitter.Grows.expr (s.body i).localCount e
  unfold call
  cases hemit : (s.body i).emit e s.pool with
  | error err pool =>
    -- the literals up to the failure are in the pool, and no code has changed
    have hpool : s.pool.GrowsTo pool := (hgrows.bind fun _ => Emitter.Grows.pure _).error hemit
    exact fun final hfinal => h final (hpool.trans hfinal)
  | ok body pool =>
    obtain ⟨ops, pool₁, hops, hrest⟩ := ok_of_bind hemit
    cases hrest
    intro final hfinal hroom j rest
    by_cases hj : j = i
    · -- the method that the value is for
      subst hj
      simp only [Function.update_self]
      rw [List.append_assoc, h final ((hgrows.ok hops).trans hfinal) hroom,
        builds_emit hops hfinal hroom, List.length_append]
      simp
    · -- any other method sees the pool grow
      simp only [Function.update_of_ne hj]
      exact h final ((hgrows.ok hops).trans hfinal) hroom j rest

theorem liftsBack_run {s : Session ι} (h : s.LiftsBack) (calls : List (ι × Expr)) :
    (s.run calls).LiftsBack := by
  induction calls generalizing s with
  | nil => exact h
  | cons call calls ih => exact ih (liftsBack_call h call.1 call.2)

end Session

/-- **Emitted code is lifted back.** After any calls for any methods, of which some may fail, each
method lifts to the values that came into it, their types aside. So does code for a block in which
nothing stands behind the end of the method. The pool must not have run out of indices. -/
theorem lift_of_emitted :
    (∀ {ι : Type} [DecidableEq ι] (localCount : ι → UInt32) (pool : Pool)
        (calls : List (ι × Expr)) (s : Session ι),
      (Session.start localCount pool).run calls = s → s.pool.Addressable →
      ∀ i, lift s.pool (s.body i).code =
        .ok { stack := ((s.emitted i).map Expr.erase).reverse }) ∧
    ∀ (localCount : UInt32) (b : Block) (pool pool' : Pool) (code : List Op), b.WellEnded →
      b.emit localCount pool = .ok code pool' → pool'.Addressable →
      lift pool' code = .ok b.erase := by
  refine ⟨?_, fun localCount b pool pool' code hended hemit hroom =>
    lift_emit_block hended hemit (Pool.GrowsTo.refl pool') hroom⟩
  rintro ι _ localCount pool calls _ rfl hroom i
  have hlifts := Session.liftsBack_run (Session.liftsBack_start localCount pool) calls
  have hrun := hlifts _ (Pool.GrowsTo.refl _) hroom i []
  rw [List.append_nil] at hrun
  exact hrun

/-- Two methods in turn. The first value of one has a literal in the pool when the other one fails
for want of a local, which leaves its literal there; what is not a number loses its payload. A block
that writes a local and returns. -/
theorem lift_of_emitted_shared :
    ∃ s : Session Bool,
      (Session.start (fun _ => 2) {}).run
        [(false, .binary .add (.constant (.int 70000)) (.getLocal 1 .int) .string),
          (true, .binary .add (.constant (.string "a")) (.getLocal 2 .any) .any),
          (true, .constant (.number ⟨0x7ff0000000000001⟩)),
          (false, .convert (.constant (.string "b")) .toInt)] = s ∧
      s.pool = { ints := [70000], strings := ["a", "b"] } ∧
      lift s.pool (s.body false).code = .ok { stack :=
        [.convert (.constant (.string "b")) .toInt,
          .binary .add (.constant (.int 70000)) (.getLocal 1 .any) .any] } ∧
      lift s.pool (s.body true).code = .ok { stack := [.constant (.number Double.nan)] } ∧
      ∃ code pool, Block.emit 2 { statements := [.setLocal 1 (.getLocal 0 .int),
        .exit (some (.constant (.uint 7)))] } s.pool = .ok code pool ∧
        lift pool code = .ok { statements := [.setLocal 1 (.getLocal 0 .any),
          .exit (some (.constant (.uint 7)))] } := by
  obtain ⟨s, hs⟩ : ∃ s : Session Bool, (Session.start (fun _ => 2) {}).run
      [(false, .binary .add (.constant (.int 70000)) (.getLocal 1 .int) .string),
        (true, .binary .add (.constant (.string "a")) (.getLocal 2 .any) .any),
        (true, .constant (.number ⟨0x7ff0000000000001⟩)),
        (false, .convert (.constant (.string "b")) .toInt)] = s := ⟨_, rfl⟩
  have hpool : s.pool = { ints := [70000], strings := ["a", "b"] } := by
    rw [← hs]
    decide +kernel
  have hroom : s.pool.Addressable := by
    rw [hpool]
    exact ⟨by decide, by decide, by decide, by decide⟩
  have hlift := lift_of_emitted.1 _ _ _ s hs hroom
  have hfirst : s.emitted false = [.binary .add (.constant (.int 70000)) (.getLocal 1 .int) .string,
      .convert (.constant (.string "b")) .toInt] := by
    rw [← hs]
    decide +kernel
  have hsecond : s.emitted true = [.constant (.number ⟨0x7ff0000000000001⟩)] := by
    rw [← hs]
    decide +kernel
  refine ⟨s, hs, hpool, ?_, ?_, ?_⟩
  · rw [hlift, hfirst]
    rfl
  · rw [hlift, hsecond]
    decide +kernel
  · have hended : Block.WellEnded { statements := [.setLocal 1 (.getLocal 0 .int),
        .exit (some (.constant (.uint 7)))] } :=
      .inr ⟨[.setLocal 1 (.getLocal 0 .int)], _, List.forall_mem_singleton.mpr rfl, rfl⟩
    have hroom' : Pool.Addressable { ints := [70000], uints := [7], strings := ["a", "b"] } :=
      ⟨by decide, by decide, by decide, by decide⟩
    rw [hpool]
    exact ⟨_, _, rfl, lift_of_emitted.2 2 _ _ _ _ hended rfl hroom'⟩

end Swf.Abc
