import Swf.Proofs.Display.Nesting

/-!
# Restoring a backend step by step

`Painting.run` tells the whole trace of a painting at once. Here the calls are made one step at a
time, by a machine that holds the painting in control and the nodes being drawn around it. Whenever
a painting ends, by whatever outcome, the node it was for is left, and only then does the painting
around it go on with that outcome; a panic that nobody catches leaves every open node this way.

The machine makes exactly the calls of `Painting.run`. At each of its moments the calls so far have
opened the nodes being drawn, in their order, and nothing else.
-/

namespace Swf

open BackendCall

variable {ε : Type}

/-- A node being drawn, and how the painting that draws it goes on. -/
structure OpenNode (ε : Type) where
  node : DisplayNode
  next : PaintOutcome ε → Painting ε

/-- A moment of drawing, with the nodes being drawn, innermost first. -/
inductive Moment (ε : Type) where
  /-- A painting has the backend. -/
  | painting (current : Painting ε) (around : List (OpenNode ε))
  /-- A painting has ended, and its node is still open. -/
  | ended (outcome : PaintOutcome ε) (around : List (OpenNode ε))

namespace Moment

/-- One step and the calls it makes. -/
inductive Step : Moment ε → List BackendCall → Moment ε → Prop where
  | finish (outcome : PaintOutcome ε) (around : List (OpenNode ε)) :
      Step (.painting (.finish outcome) around) [] (.ended outcome around)
  | render (rest : Painting ε) (around : List (OpenNode ε)) :
      Step (.painting (.render rest) around) [.render] (.painting rest around)
  | enter (node : DisplayNode) (inner : Painting ε) (next : PaintOutcome ε → Painting ε)
      (around : List (OpenNode ε)) :
      Step (.painting (.draw node inner next) around) node.enter
        (.painting inner (⟨node, next⟩ :: around))
  | leave (outcome : PaintOutcome ε) (innermost : OpenNode ε) (around : List (OpenNode ε)) :
      Step (.ended outcome (innermost :: around)) innermost.node.leave
        (.painting (innermost.next outcome) around)

/-- Steps and the calls they make. -/
inductive Steps : Moment ε → List BackendCall → Moment ε → Prop where
  | refl (moment : Moment ε) : Steps moment [] moment
  | step {moment middle last : Moment ε} {calls more : List BackendCall}
      (first : Step moment calls middle) (rest : Steps middle more last) :
      Steps moment (calls ++ more) last

namespace Steps

theorem one {moment last : Moment ε} {calls : List BackendCall} (step : Step moment calls last) :
    Steps moment calls last := by
  simpa using Steps.step step (.refl last)

theorem trans {moment middle last : Moment ε} {calls more : List BackendCall}
    (first : Steps moment calls middle) (second : Steps middle more last) :
    Steps moment (calls ++ more) last := by
  induction first with
  | refl => exact second
  | step first _ ih =>
    rw [List.append_assoc]
    exact .step first (ih second)

end Steps

end Moment

open Moment (Step Steps)

/-! ### The machine makes the calls of a painting -/

/-- A painting that has the backend ends with its trace and its outcome, the nodes around it as open
as before. -/
theorem Painting.steps_run (painting : Painting ε) (around : List (OpenNode ε)) :
    Steps (.painting painting around) painting.run.1 (.ended painting.run.2 around) := by
  induction painting generalizing around with
  | finish outcome => exact .one (.finish outcome around)
  | render rest ih => exact .step (.render rest around) (ih around)
  | draw node inner next inside after =>
    have left : Steps (.painting (.draw node inner next) around) (node.bracket inner.run.1)
        (.painting (next inner.run.2) around) :=
      ((Steps.one (.enter node inner next around)).trans (inside _)).trans
        (.one (.leave inner.run.2 ⟨node, next⟩ around))
    exact left.trans (after inner.run.2 around)

/-- A painting that has the backend for a node ends, and the node is left before the painting around
it goes on. -/
theorem Painting.steps_leave (painting : Painting ε) (innermost : OpenNode ε)
    (around : List (OpenNode ε)) :
    Steps (.painting painting (innermost :: around)) (painting.run.1 ++ innermost.node.leave)
      (.painting (innermost.next painting.run.2) around) :=
  (painting.steps_run _).trans (.one (.leave painting.run.2 innermost around))

/-- The calls that are made once a painting has ended: nodes are left and the paintings around go
on. -/
def comeBack : PaintOutcome ε → List (OpenNode ε) → List BackendCall
  | _, [] => []
  | outcome, innermost :: around =>
    let resumed := (innermost.next outcome).run
    innermost.node.leave ++ resumed.1 ++ comeBack resumed.2 around

namespace Moment

/-- The nodes being drawn, innermost first. -/
def around : Moment ε → List (OpenNode ε)
  | painting _ around => around
  | ended _ around => around

@[simp] theorem around_painting (current : Painting ε) (around : List (OpenNode ε)) :
    (painting current around).around = around := rfl

@[simp] theorem around_ended (outcome : PaintOutcome ε) (around : List (OpenNode ε)) :
    (ended outcome around).around = around := rfl

/-- The calls that are still to come. -/
def rest : Moment ε → List BackendCall
  | painting current around => current.run.1 ++ comeBack current.run.2 around
  | ended outcome around => comeBack outcome around

end Moment

theorem rest_of_step {moment last : Moment ε} {calls : List BackendCall}
    (step : Step moment calls last) : moment.rest = calls ++ last.rest := by
  cases step with
  | finish outcome around => rfl
  | render rest around => rfl
  | enter node inner next around =>
    simp [Moment.rest, Painting.run, DisplayNode.bracket, comeBack]
  | leave outcome innermost around => simp [Moment.rest, comeBack]

/-- Steps do not change the trace as a whole. -/
theorem rest_of_steps {moment last : Moment ε} {calls : List BackendCall}
    (steps : Steps moment calls last) : moment.rest = calls ++ last.rest := by
  induction steps with
  | refl => rfl
  | step first _ ih => rw [rest_of_step first, ih, List.append_assoc]

/-! ### What the calls so far have opened -/

/-- The calls so far have entered the nodes being drawn, each inside the one around it, with whole
nodes before, between and after. -/
inductive Entered : List (OpenNode ε) → List BackendCall → Prop where
  | outermost {calls : List BackendCall} (before : Nested calls) : Entered [] calls
  | inside (innermost : OpenNode ε) {around : List (OpenNode ε)} {outside inside : List BackendCall}
      (before : Entered around outside) (after : Nested inside) :
      Entered (innermost :: around) (outside ++ innermost.node.enter ++ inside)

/-- Whole nodes do not change which nodes are entered. -/
theorem Entered.append {around : List (OpenNode ε)} {calls more : List BackendCall}
    (entered : Entered around calls) (nested : Nested more) : Entered around (calls ++ more) := by
  cases entered with
  | outermost before => exact .outermost (before.append nested)
  | inside innermost before after =>
    rw [List.append_assoc]
    exact .inside innermost before (after.append nested)

theorem entered_of_step {moment last : Moment ε} {before calls : List BackendCall}
    (step : Step moment calls last) (entered : Entered moment.around before) :
    Entered last.around (before ++ calls) := by
  cases step with
  | finish outcome around => simpa using entered
  | render rest around => exact entered.append (.render .nil)
  | enter node inner next around => simpa using Entered.inside ⟨node, next⟩ entered .nil
  | leave outcome innermost around =>
    -- the node that is left becomes one of the whole nodes inside the one around it
    cases entered with
    | inside _ outer after =>
      simpa [DisplayNode.bracket] using outer.append (after.bracket innermost.node)

theorem entered_of_steps {moment last : Moment ε} {before calls : List BackendCall}
    (steps : Steps moment calls last) (entered : Entered moment.around before) :
    Entered last.around (before ++ calls) := by
  induction steps generalizing before with
  | refl => simpa using entered
  | step first _ ih =>
    rw [← List.append_assoc]
    exact ih (entered_of_step first entered)

/-- The scopes a node opens, innermost first. -/
def DisplayNode.opens (node : DisplayNode) : List Scope :=
  if node.blendMode.isAdditive then [.additiveBlend, .matrix] else [.matrix]

theorem DisplayNode.scopes_enter (node : DisplayNode) (opened : List Scope) :
    scopes node.enter opened = some (node.opens ++ opened) := by
  cases additive : node.blendMode.isAdditive <;>
    simp [DisplayNode.enter, DisplayNode.opens, scopesAfter, additive]

/-- What the calls so far have opened is what the nodes being drawn open. -/
theorem Entered.scopes_eq {around : List (OpenNode ε)} {calls : List BackendCall}
    (entered : Entered around calls) (opened : List Scope) :
    scopes calls opened = some (around.flatMap (·.node.opens) ++ opened) := by
  induction entered with
  | outermost before => simp [before.scopes_eq]
  | inside innermost before after ih =>
    simp [ih, innermost.node.scopes_enter, after.scopes_eq, List.append_assoc]

/-! ### Drawing nodes in turn -/

/-- The start of drawing a node. -/
def Moment.start (node : DisplayNode) (painting : Painting ε) : Moment ε :=
  .painting (.draw node painting .finish) []

section Draw

variable {node : DisplayNode} {painting : Painting ε} {calls : List BackendCall}

theorem steps_draw : Steps (.start node painting) (node.draw painting).1
    (.ended (node.draw painting).2 []) := by
  simpa [Moment.start, Painting.run, DisplayNode.draw] using
    (Painting.draw node painting .finish).steps_run []

theorem rest_start : (Moment.start node painting).rest = (node.draw painting).1 := by
  simp [Moment.start, Moment.rest, Painting.run, comeBack, DisplayNode.draw]

theorem entered_of_draw {moment : Moment ε} (steps : Steps (.start node painting) calls moment) :
    Entered moment.around calls :=
  entered_of_steps steps (.outermost .nil)

end Draw

theorem trace_drawAll (draws : List (DisplayNode × Painting ε)) :
    (drawAll draws).1 = draws.flatMap fun drawn => (drawn.1.draw drawn.2).1 := by
  simp [drawAll, List.flatMap_map]

theorem outcomes_drawAll (draws : List (DisplayNode × Painting ε)) :
    (drawAll draws).2 = draws.map fun drawn => drawn.2.run.2 := by
  simp [drawAll, DisplayNode.draw]

theorem drawAll_append (draws more : List (DisplayNode × Painting ε)) :
    (drawAll (draws ++ more)).1 = (drawAll draws).1 ++ (drawAll more).1 := by
  simp only [trace_drawAll, List.flatMap_append]

/-- What has been drawn first is at the front of the trace. -/
theorem drawAll_take (draws : List (DisplayNode × Painting ε)) (k : Nat) :
    (drawAll (draws.take k)).1 <+: (drawAll draws).1 :=
  ⟨(drawAll (draws.drop k)).1, by rw [← drawAll_append, List.take_append_drop]⟩

/-- **A backend is restored whichever way its paintings end.** Nodes drawn in turn leave a nested
trace, which is their traces one after the other, and after each of them just the scopes are open
that were open before; each draw hands back what its painting ended with. Step by step, at each
moment of a draw the scopes of the nodes being drawn are open and no others. A painting that has the
backend for a node has it after the node's matrix was saved, rotated and moved, and its blending
set, with whole nodes at most since then; from there it makes a nested trace, the node is left
whatever the outcome is, and only then the painting around goes on, with that outcome. -/
theorem drawAll_restores (draws : List (DisplayNode × Painting ε)) :
    Nested (drawAll draws).1 ∧
      (drawAll draws).1 = draws.flatMap (fun drawn => (drawn.1.draw drawn.2).1) ∧
      (drawAll draws).2 = draws.map (fun drawn => drawn.2.run.2) ∧
      (∀ (k : Nat) (opened : List Scope), (drawAll (draws.take k)).1 <+: (drawAll draws).1 ∧
        scopes (drawAll (draws.take k)).1 opened = some opened) ∧
      ∀ drawn ∈ draws,
        Steps (.start drawn.1 drawn.2) (drawn.1.draw drawn.2).1 (.ended drawn.2.run.2 []) ∧
        (∀ (calls : List BackendCall) (moment : Moment ε) (opened : List Scope),
          Steps (.start drawn.1 drawn.2) calls moment →
            scopes calls opened = some (moment.around.flatMap (·.node.opens) ++ opened)) ∧
        ∀ (calls : List BackendCall) (current : Painting ε) (node : DisplayNode)
          (next : PaintOutcome ε → Painting ε) (around : List (OpenNode ε)),
          Steps (.start drawn.1 drawn.2) calls (.painting current (⟨node, next⟩ :: around)) →
            ∃ outside inside rest : List BackendCall,
              calls = outside ++
                [.pushMatrix, .rotate node.rotationRadians, .translate node.x node.y] ++
                (if node.blendMode.isAdditive then [.enableAdditiveBlend] else []) ++ inside ∧
              Nested inside ∧ Nested current.run.1 ∧
              Steps (.painting current (⟨node, next⟩ :: around))
                (current.run.1 ++
                  (if node.blendMode.isAdditive then [.disableBlend] else []) ++ [.popMatrix])
                (.painting (next current.run.2) around) ∧
              (drawn.1.draw drawn.2).1 = calls ++ current.run.1 ++
                (if node.blendMode.isAdditive then [.disableBlend] else []) ++ [.popMatrix] ++
                rest := by
  refine ⟨nested_drawAll draws, trace_drawAll draws, outcomes_drawAll draws,
    fun k opened => ⟨drawAll_take draws k, (nested_drawAll _).scopes_eq opened⟩,
    fun ⟨top, painting⟩ _ => ⟨steps_draw, fun calls moment opened steps =>
      (entered_of_draw steps).scopes_eq opened, ?_⟩⟩
  intro calls current node next around steps
  have left := current.steps_leave ⟨node, next⟩ around
  have whole := rest_of_steps (steps.trans left)
  rw [rest_start] at whole
  cases entered_of_draw steps with
  | @inside _ _ outside inside before after =>
    refine ⟨outside, inside, (Moment.painting (next current.run.2) around).rest,
      by simp [DisplayNode.enter], after, current.nested_run, ?_, ?_⟩
    · simpa [DisplayNode.leave] using left
    · simpa [DisplayNode.leave] using whole

/-- A panic two nodes deep, below additive blending, and a failure afterwards. When the panic is
raised the two matrices and the blending are open; all three are closed before the second node. -/
theorem drawAll_restores_panic :
    ∃ (glowing still : DisplayNode) (draws : List (DisplayNode × Painting Nat)),
      glowing.blendMode = .add ∧ still.blendMode = .normal ∧
      draws = [(glowing, .draw still (.render (.finish .panic)) .finish),
        (still, .finish (.failure 7))] ∧
      Nested (drawAll draws).1 ∧ (drawAll draws).2 = [.panic, .failure 7] ∧
      ∃ calls rest : List BackendCall,
        scopes calls [] = some [.matrix, .additiveBlend, .matrix] ∧
        (drawAll draws).1 = calls ++ [.popMatrix, .disableBlend, .popMatrix] ++ rest ∧
        scopes rest [] = some [] := by
  obtain ⟨glowing, hglowing⟩ : ∃ node : DisplayNode, node = ⟨⟨0⟩, ⟨0⟩, ⟨0⟩, .add⟩ := ⟨_, rfl⟩
  obtain ⟨still, hstill⟩ : ∃ node : DisplayNode, node = ⟨⟨0⟩, ⟨0⟩, ⟨0⟩, .normal⟩ := ⟨_, rfl⟩
  have hglow : glowing.blendMode.isAdditive = true := by rw [hglowing]; rfl
  have hplain : still.blendMode.isAdditive = false := by rw [hstill]; rfl
  obtain ⟨nested, -, outcomes, -, drawn⟩ := drawAll_restores
    [(glowing, .draw still (.render (.finish .panic)) .finish),
      (still, .finish (PaintOutcome.failure 7))]
  obtain ⟨-, hopen, -⟩ := drawn _ List.mem_cons_self
  -- the painting of the inner node has drawn something and is about to panic
  have steps : Steps (Moment.start glowing (.draw still (.render (.finish .panic)) .finish))
      (glowing.enter ++ (still.enter ++ ([.render] ++ [])))
      (.painting (.finish (.panic : PaintOutcome Nat)) [⟨still, .finish⟩, ⟨glowing, .finish⟩]) :=
    .step (.enter ..) (.step (.enter ..) (.step (.render ..) (.refl _)))
  refine ⟨glowing, still, _, by rw [hglowing], by rw [hstill], rfl, nested, outcomes, _,
    (still.draw (.finish (PaintOutcome.failure 7))).1, (hopen _ _ [] steps).trans ?_, ?_,
    (still.nested_draw _).scopes_eq []⟩
  · simp [DisplayNode.opens, hglow, hplain]
  · simp [drawAll, DisplayNode.draw, Painting.run, DisplayNode.bracket, DisplayNode.leave, hglow,
      hplain]

end Swf
