import Swf.Proofs.Abc.Shape
import Swf.Abc.Method

/-!
# How deep a stack a method needs

Values come into a method one after the other, and some do not because they read a local that it
does not have. The method keeps the depth of stack that its code needs, and does so by scanning the
whole code anew with every value. What comes out is the height of the `i`-th value above `i` others,
whichever `i` makes most of it (`Construction.maxStack_of_run`).

The invariant is that the code has the profile of a pile of values (`Construction.Sound`). One call
keeps it, since code in sequence adds up.
-/

namespace Swf.Abc

/-! ## Piles -/

/-- One more value stands on all the others. -/
theorem pileNeed_concat (es : List Expr) (e : Expr) :
    pileNeed (es ++ [e]) = max (pileNeed es) (es.length + e.need) := by
  induction es with
  | nil =>
    have := e.one_le_need
    simp only [List.nil_append, pileNeed, List.length_nil]
    omega
  | cons first es ih =>
    rw [List.cons_append, pileNeed, ih, pileNeed, List.length_cons]
    omega

/-- What a pile needs is what its neediest value needs, at its place. -/
theorem pileNeed_eq (es : List Expr) :
    pileNeed es = (es.mapIdx fun i e => i + e.need).foldl max 0 := by
  induction es using List.reverseRecOn with
  | nil => rfl
  | append_singleton es e ih => rw [pileNeed_concat, ih, List.mapIdx_concat, List.foldl_concat]

/-! ## Calls -/

/-- A method under construction, with the values that came into it. -/
structure Construction where
  body : Method
  emitted : List Expr := []

namespace Construction

/-- An empty method. -/
def start (localCount : UInt32) : Construction where
  body := { localCount }

/-- A call for one more value, which finds the pool in any state. Where it fails the method stays as
it was. -/
def call (s : Construction) (pool : Pool) (e : Expr) : Construction :=
  match s.body.emit e pool with
  | .ok body _ => { body, emitted := s.emitted ++ [e] }
  | .error _ _ => s

/-- Calls one after the other. -/
def run (s : Construction) (calls : List (Pool × Expr)) : Construction :=
  calls.foldl (fun s call => s.call call.1 call.2) s

/-- The code leaves the values that came into the method, and the method knows how high they get. -/
structure Sound (s : Construction) : Prop where
  profile : Profile s.emitted.length s.body.maxStack s.body.code
  maxStack_eq : s.body.maxStack = pileNeed s.emitted
  straight : ∀ op ∈ s.body.code, op.isBranch = false ∧ op.isReturn = false

theorem sound_start (localCount : UInt32) : (start localCount).Sound :=
  ⟨.nil, rfl, List.forall_mem_nil _⟩

/-- **One call** keeps the method sound, whether it fails or not. -/
theorem Sound.call {s : Construction} (h : s.Sound) (pool : Pool) (e : Expr) :
    (s.call pool e).Sound := by
  unfold Construction.call
  cases hemit : s.body.emit e pool with
  | error err pool' => exact h
  | ok body pool' =>
    obtain ⟨ops, pool₁, hops, hrest⟩ := ok_of_bind hemit
    cases hrest
    obtain ⟨-, hshape⟩ := (Emitter.Yields.expr s.body.localCount e).of_ok hops
    have hprofile := h.profile.append hshape.profile
    -- the new scan finds what the old one found, and more only in the new code
    have hpeak : max s.body.maxStack (maxStack (s.body.code ++ ops)) =
        max s.body.maxStack (s.emitted.length + e.need) := by
      rw [hprofile.maxStack_eq]
      omega
    constructor
    · simp only [hpeak, List.length_append]
      exact hprofile
    · show max s.body.maxStack (maxStack (s.body.code ++ ops)) = pileNeed (s.emitted ++ [e])
      rw [hpeak, pileNeed_concat, h.maxStack_eq]
    · exact List.forall_mem_append.mpr ⟨h.straight, hshape.straight⟩

theorem Sound.run {s : Construction} (h : s.Sound) (calls : List (Pool × Expr)) :
    (s.run calls).Sound := by
  induction calls generalizing s with
  | nil => exact h
  | cons call calls ih => exact ih (h.call call.1 call.2)

/-- **A method needs the stack that it says.** After calls with any values and pools, the code never
pops an empty stack and leaves as many values as came in. The depth that the method keeps is the
greatest `i + need` of an `i`-th value, which is computed above `i` others, and 0 without values. No
stack on the way is higher. A machine that finds the literals of the code in a pool runs through it.
One more call that fails changes neither the code nor the depth. -/
theorem maxStack_of_run {localCount : UInt32} {calls : List (Pool × Expr)} {s : Construction}
    (h : (start localCount).run calls = s) :
    Fits 0 s.body.code ∧ height s.body.code = s.emitted.length ∧
    s.body.maxStack = (s.emitted.mapIdx fun i e => i + e.need).foldl max 0 ∧
    (∀ before, before <+: s.body.code → height before ≤ s.body.maxStack) ∧
    (∀ (I : Interpretation) (pool : Pool) (registers : UInt32 → I.Value),
      (∀ kind index, .pushPooled kind index ∈ s.body.code → pool.constant? kind index ≠ none) →
      ∃ m, I.run pool s.body.code { registers } = some m ∧ m.stack.length = s.emitted.length) ∧
    ∀ pool e err pool', s.body.emit e pool = .error err pool' →
      (s.call pool e).body.code = s.body.code ∧
      (s.call pool e).body.maxStack = s.body.maxStack := by
  obtain ⟨hprofile, hmax, hstraight⟩ : s.Sound := h ▸ (sound_start localCount).run calls
  refine ⟨hprofile.fits, hprofile.height_eq, ?_, hprofile.le_peak, ?_, ?_⟩
  · rw [hmax, pileNeed_eq]
  · intro I pool registers hpool
    obtain ⟨m, hrun, hheight⟩ := I.run_of_fits (s := { registers }) hstraight hpool hprofile.fits
    rw [hprofile.height_eq] at hheight
    exact ⟨m, hrun, Int.ofNat_inj.mp (by simpa using hheight)⟩
  · intro pool e err pool' hfails
    rw [call, hfails]
    exact ⟨rfl, rfl⟩

/-- Three values come in, each above those before it, and the highest is the last one. A local that
the method does not have is refused in between, and again in the end. -/
theorem maxStack_of_run_refused :
    let product : Expr := .ofBinary .multiply (.constant (.int 2))
      (.ofBinary .add (.constant (.int 3)) (.constant (.int 4)))
    let text : Expr := .ofBinary .add (.constant (.string "a"))
      (.ofBinary .add (.constant (.string "b")) (.constant (.string "c")))
    let calls := [({}, product), ({}, .getLocal 5 .any), ({}, .getLocal 0 .any), ({}, text)]
    let s := (start 1).run calls
    s.emitted = [product, .getLocal 0 .any, text] ∧ s.body.maxStack = 5 ∧
      Fits 0 s.body.code ∧ height s.body.code = (3 : Nat) ∧
      (∀ before, before <+: s.body.code → height before ≤ (5 : Nat)) ∧
      (∀ (I : Interpretation) (registers : UInt32 → I.Value),
        ∃ m, I.run { strings := ["a", "b", "c"] } s.body.code { registers } = some m ∧
          m.stack.length = 3) ∧
      (s.call {} (.getLocal 7 .any)).body.maxStack = 5 := by
  intro product text calls s
  obtain ⟨hfits, hheight, -, hle, hruns, hfails⟩ := maxStack_of_run (s := s) rfl
  have hcode : s.body.code = [.push (.byte 2), .push (.byte 3), .push (.byte 4), .binary .add,
      .binary .multiply, .getLocal 0, .pushPooled .string 1, .pushPooled .string 2,
      .pushPooled .string 3, .binary .add, .binary .add] := rfl
  have hpool : ∀ kind index, .pushPooled kind index ∈ s.body.code →
      Pool.constant? { strings := ["a", "b", "c"] } kind index ≠ none := by
    intro kind index hmem
    simp only [hcode, List.mem_cons, reduceCtorEq, Op.pushPooled.injEq, List.not_mem_nil, false_or,
      or_false] at hmem
    rcases hmem with ⟨rfl, rfl⟩ | ⟨rfl, rfl⟩ | ⟨rfl, rfl⟩ <;> decide
  exact ⟨rfl, rfl, hfits, hheight, hle, fun I registers => hruns I _ registers hpool,
    (hfails {} _ _ _ rfl).2⟩

end Construction

end Swf.Abc
