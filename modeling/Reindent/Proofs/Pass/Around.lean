import Reindent.Proofs.Frame.Sibling
import Reindent.Proofs.Pass.Trail

/-!
# Reindent.Proofs.Pass.Around

What a step does to a frame that stays open.

* `Stack.Around` — the frame at a depth, counted from outside, has a property.
* `around_closeFor` — ending the frames inside it keeps the property.
* `stack_settle` — what placing a line does to the innermost frame.
* `around_step`  — a step keeps the property if the line that is placed in the frame does.
-/

namespace Reindent
namespace Stack

variable {depth : Nat} {P : Frame → Prop}

def Around (depth : Nat) (P : Frame → Prop) (stack : Stack) : Prop :=
  ∃ inner frame outer, stack = inner ++ frame :: outer ∧ outer.length + 1 = depth ∧ P frame

theorem around_head {frame : Frame} {rest : Stack} (hlength : rest.length + 1 = depth)
    (h : P frame) :
    Around depth P (frame :: rest) :=
  ⟨[], frame, rest, rfl, hlength, h⟩

theorem Around.append {stack : Stack} (h : stack.Around depth P) (opened : Stack) :
    Around depth P (opened ++ stack) := by
  obtain ⟨inner, frame, outer, rfl, hlength, hframe⟩ := h
  exact ⟨opened ++ inner, frame, outer, by rw [List.append_assoc], hlength, hframe⟩

theorem around_cons {frame : Frame} {rest : Stack} (h : Around depth P (frame :: rest)) :
    (rest.length + 1 = depth ∧ P frame) ∨ (depth ≤ rest.length ∧ rest.Around depth P) := by
  obtain ⟨inner, found, outer, hstack, hlength, hfound⟩ := h
  cases inner with
  | nil =>
    cases hstack
    exact .inl ⟨hlength, hfound⟩
  | cons first inner =>
    rw [List.cons_append, List.cons.injEq] at hstack
    obtain ⟨rfl, rfl⟩ := hstack
    refine .inr ⟨?_, inner, found, outer, rfl, hlength, hfound⟩
    rw [List.length_append, List.length_cons]
    omega

theorem around_handInnermost? (hstable : Frame.Stable P) {lines : List Relocation}
    {stack stack' : Stack} (h : stack.Around depth P)
    (hhand : handInnermost? lines stack = some stack') : stack'.Around depth P := by
  induction stack generalizing stack' with
  | nil => cases hhand
  | cons frame rest ih =>
    by_cases hitem : frame.scope.item?.isSome
    · simp only [handInnermost?, hitem, if_true, Option.some.injEq] at hhand
      subst hhand
      rcases around_cons h with ⟨hlength, hframe⟩ | ⟨_, hrest⟩
      · exact around_head hlength (hstable.append frame lines hframe)
      · exact hrest.append [_]
    · simp only [handInnermost?, hitem, Bool.false_eq_true, if_false] at hhand
      obtain ⟨rest', hrest', rfl⟩ := Option.map_eq_some_iff.1 hhand
      rcases around_cons h with ⟨hlength, hframe⟩ | ⟨_, hrest⟩
      · refine around_head ?_ hframe
        rw [handInnermost?_length hrest']
        exact hlength
      · exact (ih hrest hrest').append [frame]

end Stack

namespace Pass
namespace State

variable {registry : Registry} {depth : Nat} {P : Frame → Prop}

theorem around_handOver (hstable : Frame.Stable P) {state : State} (h : state.stack.Around depth P)
    (lines : List Relocation) : (state.handOver lines).stack.Around depth P := by
  simp only [handOver]
  split
  · rename_i stack hstack
    exact Stack.around_handInnermost? hstable h hstack
  · split
    · exact h
    · exact h

theorem around_release (hstable : Frame.Stable P) {state : State} (h : state.stack.Around depth P)
    (atEnd : Bool) (frame : Frame) : (state.release atEnd frame).stack.Around depth P := by
  simp only [release]
  split
  · exact h
  · split
    · exact h
    · exact around_handOver hstable h frame.relocations

theorem around_closeTop (hstable : Frame.Stable P) {state : State}
    (h : state.stack.Around depth P) (hinside : depth < state.stack.length) (atEnd : Bool) :
    (state.closeTop atEnd).stack.Around depth P := by
  cases hstack : state.stack with
  | nil =>
    rw [hstack] at hinside
    exact absurd hinside (Nat.not_lt_zero depth)
  | cons frame rest =>
    rw [hstack] at h hinside
    simp only [closeTop, hstack]
    rcases Stack.around_cons h with ⟨hlength, _⟩ | ⟨_, hrest⟩
    · rw [List.length_cons] at hinside
      omega
    · refine around_release hstable ?_ atEnd frame
      rw [flushEntry_stack]
      exact hrest

theorem closeUpTo_stack_length_le (registry : Registry) (line : Line) (count : Nat)
    (state : State) :
    (closeUpTo registry line count state).stack.length ≤ state.stack.length := by
  refine closeUpTo_keeps (P := fun closed => closed.stack.length ≤ state.stack.length)
    (fun closed h => ?_) registry line count (Nat.le_refl _)
  rw [closeTop_stack_length]
  exact Nat.le_trans (Nat.sub_le _ _) h

theorem around_closeUpTo (hstable : Frame.Stable P) {line : Line} {count : Nat} {state : State}
    (h : state.stack.Around depth P)
    (hopen : depth ≤ (closeUpTo registry line count state).stack.length) :
    (closeUpTo registry line count state).stack.Around depth P := by
  refine closeUpTo_keeps
    (P := fun closed => depth ≤ closed.stack.length → closed.stack.Around depth P)
    (fun closed h hopen => ?_) registry line count (fun _ => h) hopen
  cases hstack : closed.stack with
  | nil =>
    rw [closeTop_of_nil hstack] at hopen ⊢
    exact h hopen
  | cons frame rest =>
    rw [closeTop_stack_length, hstack, List.length_cons] at hopen
    have hinside : depth < closed.stack.length := by
      rw [hstack, List.length_cons]
      omega
    exact around_closeTop hstable (h (Nat.le_of_lt hinside)) hinside false

theorem around_closeFor (hstable : Frame.Stable P) {line : Line} {state : State}
    (h : state.stack.Around depth P) (hopen : depth ≤ (state.closeFor registry line).stack.length) :
    (state.closeFor registry line).stack.Around depth P :=
  around_closeUpTo hstable h hopen

/-- A frame that does not end at the line leaves all frames open. -/
theorem closeFor_of_not_closesAt {state : State} {frame : Frame} {line : Line}
    (hframe : state.stack.head? = some frame) (h : frame.closesAt registry line = false) :
    state.closeFor registry line = state := by
  obtain ⟨rest, hstack⟩ := List.head?_eq_some_iff.1 hframe
  simp [closeFor, closeUpTo, hstack, h]

theorem stack_record_cons {state : State} {frame : Frame} {rest : Stack} (line : Line)
    (hstack : state.stack = frame :: rest) :
    (state.record line (state.place line)).stack = frame.recorded line :: rest := by
  simp only [record, State.scope, State.place, hstack, withScope, flushEntry_stack, Frame.recorded]

@[simp] theorem stack_writeAt (state : State) (input : InputLine) (column : Nat) :
    (state.writeAt input column).stack = state.stack := by
  simp only [writeAt]
  split <;> rfl

@[simp] theorem stack_writeBody (state : State) (input : InputLine) (shift : Int) :
    (state.writeBody input shift).stack = state.stack := by
  simp only [writeBody]
  split <;> rfl

@[simp] theorem stack_passThrough (state : State) (input : InputLine) :
    (state.passThrough input).stack = state.stack := by
  simp only [passThrough]
  split <;> rfl

theorem root_writeAt (state : State) (input : InputLine) (column : Nat) :
    (state.writeAt input column).root = state.root := by
  simp only [writeAt]
  split <;> rfl

theorem root_writeBody (state : State) (input : InputLine) (shift : Int) :
    (state.writeBody input shift).root = state.root := by
  simp only [writeBody]
  split <;> rfl

theorem root_passThrough (state : State) (input : InputLine) :
    (state.passThrough input).root = state.root := by
  simp only [passThrough]
  split <;> rfl

theorem body_passThrough (state : State) (input : InputLine) :
    (state.passThrough input).body = state.body := by
  simp only [passThrough]
  split <;> rfl

theorem body_openFrame {state state' : State} {frame : Frame}
    (h : state.openFrame frame = .ok state') : state'.body = state.body := by
  simp only [openFrame] at h
  split at h
  · cases h
    rfl
  · cases h

theorem root_openFrame {state state' : State} {frame : Frame}
    (h : state.openFrame frame = .ok state') : state'.root = state.root := by
  simp only [openFrame] at h
  split at h
  · cases h
    rfl
  · cases h

theorem stack_openFrame {state state' : State} {frame : Frame}
    (h : state.openFrame frame = .ok state') : state'.stack = frame :: state.stack := by
  simp only [openFrame] at h
  split at h
  · rename_i stack hpush
    cases h
    cases hstack : state.stack with
    | nil =>
      simp only [log, Stack.push, hstack, Except.ok.injEq] at hpush
      exact hpush.symm
    | cons top rest =>
      simp only [log, Stack.push, hstack] at hpush
      split at hpush
      · cases hpush
      · cases hpush
        rfl
  · cases h

/-- A line that is settled is recorded in the innermost frame, and may open one. -/
theorem stack_settle {state state' : State} {input : InputLine} {ahead : Option Line}
    (h : state.settle registry input ahead = .ok state') :
    ∃ opened, state'.stack =
      opened ++ (state.record input.line (state.place input.line)).stack := by
  simp only [settle] at h
  split at h
  · rename_i frame _
    refine ⟨[frame], ?_⟩
    rw [stack_openFrame h, stack_writeAt]
    rfl
  · cases h
    exact ⟨[], by simp⟩

theorem around_liftOut (hstable : Frame.Stable P) {state : State} (h : state.stack.Around depth P)
    (input : InputLine) (key : Text) : (state.liftOut input key).stack.Around depth P := by
  cases hstack : state.stack with
  | nil =>
    simp only [liftOut, hstack]
    rw [← hstack]
    exact h
  | cons frame rest =>
    rw [hstack] at h
    simp only [liftOut, hstack]
    rcases Stack.around_cons h with ⟨hlength, hframe⟩ | ⟨_, hrest⟩
    · exact Stack.around_head hlength (hstable.relocations frame _ hframe)
    · exact hrest.append [_]

end State

namespace Visit

variable {registry : Registry} {depth : Nat} {P : Frame → Prop} {visit : Visit} {next : State}

theorem around_ready (hstable : Frame.Stable P) (h : visit.state.stack.Around depth P)
    (hopen : depth ≤ visit.depth registry) : (visit.ready registry).stack.Around depth P :=
  State.around_closeFor hstable h hopen

theorem placement_eq_place {frame : Frame}
    (h : visit.frame? registry = some frame) :
    visit.placement registry = place frame visit.input.line := by
  cases hstack : (visit.ready registry).stack with
  | nil =>
    rw [frame?, hstack] at h
    cases h
  | cons top rest =>
    rw [frame?, hstack] at h
    cases h
    simp only [placement, State.place, hstack]

/-- What a step does to the innermost frame around the line that it places. -/
theorem stack_step {frame : Frame} {rest : Stack} (hplaced : visit.isPlaced registry)
    (hstack : (visit.ready registry).stack = frame :: rest)
    (hstep : visit.state.step registry visit.input visit.rest = .ok next) :
    ∃ opened, next.stack = opened ++ frame.recorded visit.input.line :: rest := by
  obtain ⟨events, hsettle⟩ := step_of_isPlaced hplaced
  rw [hsettle] at hstep
  obtain ⟨opened, hopened⟩ := State.stack_settle hstep
  have hready : ((visit.ready registry).withEvents events).stack = frame :: rest := hstack
  rw [State.stack_record_cons _ hready] at hopened
  exact ⟨opened, hopened⟩

/-- A step keeps what holds of a frame that stays open, if the line does that is placed in it. -/
theorem around_step (hstable : Frame.Stable P) (h : visit.state.stack.Around depth P)
    (hopen : visit.isStructural = true → depth ≤ visit.depth registry)
    (hrecorded : visit.isPlaced registry = true → visit.depth registry = depth →
      ∀ frame, visit.frame? registry = some frame → P frame → P (frame.recorded visit.input.line))
    (hstep : visit.state.step registry visit.input visit.rest = .ok next) :
    next.stack.Around depth P := by
  have houtcome := outcome_step registry visit
  generalize hresult : visit.state.step registry visit.input visit.rest = result at houtcome
  rw [hresult] at hstep
  cases houtcome with
  | text _ _ =>
    cases hstep
    rw [State.stack_writeBody]
    exact h
  | loose _ _ =>
    cases hstep
    rw [State.stack_passThrough]
    exact h
  | @relocated frame rest key events hrelocated _ =>
    cases hstep
    have hready := around_ready hstable h (hopen (isRelocated_iff.1 hrelocated).1)
    exact @State.around_liftOut depth P hstable ((visit.ready registry).withEvents events) hready
      visit.input key
  | placed hplaced =>
    have hready := around_ready hstable h (hopen (isPlaced_iff.1 hplaced).1)
    cases hstack : (visit.ready registry).stack with
    | nil =>
      rw [hstack] at hready
      obtain ⟨inner, frame, outer, hnil, _, _⟩ := hready
      cases inner <;> cases hnil
    | cons frame rest =>
      obtain ⟨opened, hnext⟩ := stack_step hplaced hstack (hresult.trans hstep)
      rw [hstack] at hready
      rw [hnext]
      refine Stack.Around.append ?_ opened
      rcases Stack.around_cons hready with ⟨hlength, hframe⟩ | ⟨_, hrest⟩
      · have hdepth : visit.depth registry = depth := by
          rw [Visit.depth, hstack]
          exact hlength
        have hframe? : visit.frame? registry = some frame := by
          rw [frame?, hstack]
          rfl
        exact Stack.around_head hlength (hrecorded hplaced hdepth frame hframe? hframe)
      · exact hrest.append [_]

end Visit
end Pass
end Reindent
