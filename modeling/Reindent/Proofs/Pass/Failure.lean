import Reindent.Proofs.Pass.Around

/-!
# Reindent.Proofs.Pass.Failure

Where a pass breaks off.

* `Visit.opened?` — the frame that a line opens.
* `Visit.Breaks`  — the line opens a frame at or left of the column of the frame around it.
* `breaks_of_error_step`, `Breaks.error_step` — at such a line a step fails, and at no other.
* `exists_error_steps_iff` — the lines are stepped through unless there is such a line.
-/

namespace Reindent

/-- A frame would stand at or left of the frame around it. -/
def Fault.IsFrameOrder (fault : Fault) : Prop :=
  ∃ key base parent parentBase, fault = .frameOrder key base parent parentBase

namespace Pass

variable {registry : Registry}

/-! ### A frame that does not fit -/

namespace State

theorem error_openFrame {state : State} {frame : Frame} {failure : Failure}
    (h : state.openFrame frame = .error failure) :
    ∃ parent, state.stack.head? = some parent ∧ frame.baseIndent ≤ parent.baseIndent ∧
      failure.fault =
        .frameOrder frame.key frame.baseIndent parent.key parent.baseIndent := by
  simp only [openFrame] at h
  cases hstack : state.stack with
  | nil =>
    simp only [log, hstack, Stack.push] at h
    cases h
  | cons parent rest =>
    simp only [log, hstack, Stack.push] at h
    split at h
    · cases h
    · rename_i fault hpush
      split at hpush
      · rename_i horder
        cases hpush
        cases h
        exact ⟨parent, rfl, horder, rfl⟩
      · cases hpush

theorem openFrame_of_le {state : State} {frame parent : Frame}
    (hparent : state.stack.head? = some parent) (horder : frame.baseIndent ≤ parent.baseIndent) :
    ∃ failure, state.openFrame frame = .error failure := by
  obtain ⟨rest, hstack⟩ := List.head?_eq_some_iff.1 hparent
  simp only [openFrame, log, hstack, Stack.push, if_pos horder]
  exact ⟨_, rfl⟩

/-- Which frame a line opens depends on the open frames and the children of the document. -/
theorem opening?_congr {state state' : State} (hstack : state'.stack = state.stack)
    (hroot : state'.root = state.root) (line : Line) (placement : Placement) (indent : Nat)
    (ahead : Option Line) :
    state'.opening? registry line placement indent ahead =
      state.opening? registry line placement indent ahead := by
  cases state
  cases state'
  cases hstack
  cases hroot
  rfl

/-- The state once a line is recorded and written, before it opens a frame. -/
def settled (state : State) (input : InputLine) : State :=
  let placement := state.place input.line
  let indent := placement.indent input.line
  { (state.record input.line placement).writeAt input indent with
    body :=
      if input.line.blockScalar then some ⟨input.line.indent, (indent : Int) - input.line.indent⟩
      else none }

@[simp] theorem stack_settled (state : State) (input : InputLine) :
    (state.settled input).stack = (state.record input.line (state.place input.line)).stack :=
  stack_writeAt _ _ _

@[simp] theorem root_settled (state : State) (input : InputLine) :
    (state.settled input).root = (state.record input.line (state.place input.line)).root :=
  root_writeAt _ _ _

/-- A line is recorded and written, and then opens its frame. -/
theorem settle_eq (state : State) (registry : Registry) (input : InputLine)
    (ahead : Option Line) :
    state.settle registry input ahead =
      match (state.record input.line (state.place input.line)).opening? registry input.line
        (state.place input.line) ((state.place input.line).indent input.line) ahead with
      | some frame => (state.settled input).openFrame frame
      | none => .ok (state.settled input) := by
  rw [← opening?_congr (stack_settled state input) (root_settled state input)]
  rfl

/-- The log has no part in what is recorded. -/
theorem record_withEvents (state : State) (events : List Event) (line : Line)
    (placement : Placement) :
    ((state.withEvents events).record line placement).stack =
        (state.record line placement).stack ∧
      ((state.withEvents events).record line placement).root =
        (state.record line placement).root := by
  have hflush : ∀ (state : State) (entry : Option Entry),
      (state.flushEntry entry).root = state.root := by
    intro state entry
    cases entry <;> rfl
  cases hstack : state.stack with
  | nil => simp [record, State.scope, withScope, hflush, hstack, withEvents]
  | cons frame rest => simp [record, State.scope, withScope, hflush, hstack, withEvents]

theorem head?_record (state : State) (line : Line) :
    (state.record line (state.place line)).stack.head? =
      state.stack.head?.map fun frame => frame.recorded line := by
  cases hstack : state.stack with
  | nil => simp [record, State.scope, hstack, withScope]
  | cons frame rest => rw [stack_record_cons line hstack]; rfl

end State

/-! ### Lines that break a pass off -/

namespace Visit

variable {visit : Visit}

/-- The frame that a line opens when it is placed. -/
def opened? (registry : Registry) (visit : Visit) : Option Frame :=
  ((visit.ready registry).record visit.input.line (visit.placement registry)).opening? registry
    visit.input.line (visit.placement registry)
    ((visit.placement registry).indent visit.input.line) (InputLine.nextStructural? visit.rest)

/-- The line opens `frame` in `parent`, but at or left of its column. -/
structure Breaks (registry : Registry) (visit : Visit) (frame parent : Frame) : Prop where
  placed : visit.isPlaced registry = true
  opened : visit.opened? registry = some frame
  around : visit.frame? registry = some parent
  order : frame.baseIndent ≤ parent.baseIndent

theorem step_eq_opened (hplaced : visit.isPlaced registry = true) :
    ∃ events, visit.state.step registry visit.input visit.rest =
      match visit.opened? registry with
      | some frame => (((visit.ready registry).withEvents events).settled visit.input).openFrame frame
      | none => .ok (((visit.ready registry).withEvents events).settled visit.input) := by
  obtain ⟨events, hstep⟩ := step_of_isPlaced hplaced
  obtain ⟨hrecorded, hroot⟩ := State.record_withEvents (visit.ready registry) events
    visit.input.line (visit.placement registry)
  have hopened := @State.opening?_congr registry _ _ hrecorded hroot visit.input.line
    (visit.placement registry) ((visit.placement registry).indent visit.input.line)
    (InputLine.nextStructural? visit.rest)
  refine ⟨events, ?_⟩
  rw [hstep, State.settle_eq]
  exact congrArg (fun opened : Option Frame => match opened with
    | some frame => (((visit.ready registry).withEvents events).settled visit.input).openFrame frame
    | none => .ok (((visit.ready registry).withEvents events).settled visit.input)) hopened

theorem stack_settled (registry : Registry) (visit : Visit) (events : List Event) :
    (((visit.ready registry).withEvents events).settled visit.input).stack =
      ((visit.ready registry).record visit.input.line (visit.placement registry)).stack := by
  rw [State.stack_settled]
  exact (State.record_withEvents _ _ _ _).1

theorem root_settled (registry : Registry) (visit : Visit) (events : List Event) :
    (((visit.ready registry).withEvents events).settled visit.input).root =
      ((visit.ready registry).record visit.input.line (visit.placement registry)).root := by
  rw [State.root_settled]
  exact (State.record_withEvents _ _ _ _).2

theorem breaks_of_error_step {failure : Failure}
    (h : visit.state.step registry visit.input visit.rest = .error failure) :
    ∃ frame parent, visit.Breaks registry frame parent ∧
      failure.fault =
        .frameOrder frame.key frame.baseIndent parent.key parent.baseIndent := by
  have hplaced : visit.isPlaced registry = true := by
    have houtcome := outcome_step registry visit
    rw [h] at houtcome
    generalize hresult : Except.error failure = result at houtcome
    cases houtcome with
    | text _ _ => cases hresult
    | loose _ _ => cases hresult
    | relocated _ _ => cases hresult
    | placed hplaced => exact hplaced
  obtain ⟨events, hstep⟩ := step_eq_opened hplaced
  rw [hstep] at h
  split at h
  · rename_i frame hopened
    obtain ⟨parent, hparent, horder, hfault⟩ := State.error_openFrame h
    rw [stack_settled, Visit.placement, State.head?_record, Option.map_eq_some_iff] at hparent
    obtain ⟨around, haround, rfl⟩ := hparent
    exact ⟨frame, around, ⟨hplaced, hopened, haround, horder⟩, hfault⟩
  · cases h

theorem Breaks.error_step {frame parent : Frame} (h : visit.Breaks registry frame parent) :
    ∃ failure, visit.state.step registry visit.input visit.rest = .error failure := by
  obtain ⟨events, hstep⟩ := step_eq_opened h.placed
  have hparent : (((visit.ready registry).withEvents events).settled visit.input).stack.head? =
      some (parent.recorded visit.input.line) := by
    have haround : (visit.ready registry).stack.head? = some parent := h.around
    rw [stack_settled, Visit.placement, State.head?_record, haround, Option.map_some]
  rw [hstep, h.opened]
  exact State.openFrame_of_le hparent h.order

end Visit

/-- A pass over the lines breaks off at the one where a step fails. -/
theorem error_steps_iff {inputs : List InputLine} {state : State} {failure : Failure} :
    steps registry state inputs = .error failure ↔
      ∃ visit ∈ trail registry state inputs,
        visit.state.step registry visit.input visit.rest = .error failure := by
  induction inputs generalizing state with
  | nil => simp [steps, trail]
  | cons input rest ih =>
    cases hstep : state.step registry input rest with
    | error broken => simp [steps, trail, hstep]
    | ok next => simp [steps, trail, hstep, ih]

theorem exists_error_steps_iff {inputs : List InputLine} {state : State} :
    (∃ failure, steps registry state inputs = .error failure) ↔
      ∃ visit ∈ trail registry state inputs, ∃ frame parent,
        visit.Breaks registry frame parent := by
  constructor
  · rintro ⟨failure, h⟩
    obtain ⟨visit, hvisit, hstep⟩ := error_steps_iff.1 h
    obtain ⟨frame, parent, hbreaks, _⟩ := Visit.breaks_of_error_step hstep
    exact ⟨visit, hvisit, frame, parent, hbreaks⟩
  · rintro ⟨visit, hvisit, frame, parent, hbreaks⟩
    obtain ⟨failure, hstep⟩ := hbreaks.error_step
    exact ⟨failure, error_steps_iff.2 ⟨visit, hvisit, hstep⟩⟩

end Pass
end Reindent
