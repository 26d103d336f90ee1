import Reindent.Pass.Run

/-!
# Reindent.Proofs.Pass.Tandem

Two passes that end their frames in step.

* `Rendering`       — how the frames and the waiting lines of one pass look in another one.
* `Tandem`          — what relates the states of the two passes, as far as the end of a frame asks.
* `Tandem.closeTop`, `Tandem.closeFor` — frames end in both, and what waits moves on in both.
* `Tandem.unwind`   — so it does at the end of the document.
-/

namespace Reindent

/-- How the frames, the document's children and the waiting lines of a pass look in another pass. A
line that waits in one waits in the same place in the other. -/
structure Rendering where
  frame : Frame → Frame
  root : Scope → Scope
  line : Relocation → Relocation
  key : ∀ f, (frame f).key = f.key
  baseIndent : ∀ f, (frame f).baseIndent = f.baseIndent
  relocations : ∀ f, (frame f).relocations = f.relocations.map line
  pending : ∀ f, (frame f).scope.entry.map Entry.pending =
    f.scope.entry.map fun entry => entry.pending.map line
  isItem : ∀ f, (frame f).scope.item?.isSome = f.scope.item?.isSome
  append : ∀ f lines, frame { f with scope := f.scope.append lines } =
    { frame f with scope := (frame f).scope.append (lines.map line) }
  rootPending : ∀ scope, (root scope).entry.map Entry.pending =
    scope.entry.map fun entry => entry.pending.map line
  rootIsItem : ∀ scope, (root scope).item?.isSome = scope.item?.isSome
  rootAppend : ∀ scope lines, root (scope.append lines) = (root scope).append (lines.map line)
  rootEnded : ∀ scope, root { scope with entry := none } = { root scope with entry := none }

/-- Lines are handed to the same item. -/
theorem Rendering.handInnermost? (view : Rendering) (lines : List Relocation) (stack : Stack) :
    Stack.handInnermost? (lines.map view.line) (stack.map view.frame) =
      (Stack.handInnermost? lines stack).map (List.map view.frame) := by
  induction stack with
  | nil => rfl
  | cons frame rest ih =>
    simp only [Stack.handInnermost?, List.map_cons, view.isItem]
    split
    · rw [Option.map_some, List.map_cons, view.append]
    · rw [ih, Option.map_map, Option.map_map]
      rfl

/-- Nothing looks otherwise. -/
def Rendering.same : Rendering where
  frame := id
  root := id
  line := id
  key _ := rfl
  baseIndent _ := rfl
  relocations _ := (List.map_id _).symm
  pending _ := by simp only [id_eq, List.map_id]
  isItem _ := rfl
  append _ _ := by rw [List.map_id]; rfl
  rootPending _ := by simp only [id_eq, List.map_id]
  rootIsItem _ := rfl
  rootAppend _ _ := by rw [List.map_id]; rfl
  rootEnded _ := rfl

namespace Pass

/-- The states of two passes are related by `R`, which lasts when both passes write what waits, or
move it. -/
structure Tandem (view : Rendering) (R : State → State → Prop) : Prop where
  stack : ∀ {state state'}, R state state' → state'.stack = state.stack.map view.frame
  root : ∀ {state state'}, R state state' → state'.root = view.root state.root
  orphans : ∀ {state state'}, R state state' → state'.orphans = state.orphans.map view.line
  flush : ∀ {state state'}, R state state' → ∀ waiting,
    R (state.flush waiting) (state'.flush (waiting.map view.line))
  log : ∀ {state state'}, R state state' → ∀ key count indent,
    R (state.log (.openAtEnd key count indent)) (state'.log (.openAtEnd key count indent))
  update : ∀ {state state'}, R state state' → ∀ stack root orphans,
    R { state with stack, root, orphans }
      { state' with
        stack := stack.map view.frame, root := view.root root, orphans := orphans.map view.line }

namespace Tandem

variable {view : Rendering} {R : State → State → Prop} (tandem : Tandem view R)
  {registry : Registry} {state state' : State} (h : R state state')
include tandem h

theorem withStack (stack : Stack) :
    R { state with stack } { state' with stack := stack.map view.frame } := by
  have hupdated := tandem.update h stack state.root state.orphans
  rw [← tandem.root h, ← tandem.orphans h] at hupdated
  exact hupdated

theorem withRoot (root : Scope) :
    R { state with root } { state' with root := view.root root } := by
  have hupdated := tandem.update h state.stack root state.orphans
  rw [← tandem.stack h, ← tandem.orphans h] at hupdated
  exact hupdated

theorem withOrphans (orphans : List Relocation) :
    R { state with orphans } { state' with orphans := orphans.map view.line } := by
  have hupdated := tandem.update h state.stack state.root orphans
  rw [← tandem.stack h, ← tandem.root h] at hupdated
  exact hupdated

theorem flushEntry {entry entry' : Option Entry}
    (hpending : entry'.map Entry.pending = entry.map fun entry => entry.pending.map view.line) :
    R (state.flushEntry entry) (state'.flushEntry entry') := by
  cases entry with
  | none =>
    rw [Option.map_none, Option.map_eq_none_iff] at hpending
    rw [hpending]
    exact h
  | some entry =>
    obtain ⟨entry', rfl, hsame⟩ := Option.map_eq_some_iff.1 hpending
    simp only [State.flushEntry, hsame]
    exact tandem.flush h entry.pending

theorem handOver (lines : List Relocation) :
    R (state.handOver lines) (state'.handOver (lines.map view.line)) := by
  have hhand : Stack.handInnermost? (lines.map view.line) state'.stack =
      (Stack.handInnermost? lines state.stack).map (List.map view.frame) := by
    rw [tandem.stack h, view.handInnermost?]
  have hitem : state'.root.item?.isSome = state.root.item?.isSome := by
    rw [tandem.root h, view.rootIsItem]
  simp only [State.handOver, hhand, hitem]
  cases state.stack.handInnermost? lines with
  | some stack => exact tandem.withStack h stack
  | none =>
    simp only [Option.map_none]
    split
    · have happended := tandem.withRoot h (state.root.append lines)
      rw [view.rootAppend, ← tandem.root h] at happended
      exact happended
    · have hadded := tandem.withOrphans h (state.orphans ++ lines)
      rw [List.map_append, ← tandem.orphans h] at hadded
      exact hadded

theorem release (atEnd : Bool) (frame : Frame) :
    R (state.release atEnd frame) (state'.release atEnd (view.frame frame)) := by
  simp only [State.release, view.relocations, view.key, view.baseIndent, List.isEmpty_map,
    List.length_map]
  split
  · exact h
  · split
    · exact tandem.flush (tandem.log h _ _ _) _
    · exact tandem.handOver h _

theorem closeTop (atEnd : Bool) : R (state.closeTop atEnd) (state'.closeTop atEnd) := by
  have hstack := tandem.stack h
  cases hframes : state.stack with
  | nil =>
    rw [hframes, List.map_nil] at hstack
    simp only [State.closeTop, hframes, hstack]
    exact h
  | cons frame rest =>
    rw [hframes, List.map_cons] at hstack
    simp only [State.closeTop, hframes, hstack]
    have hflushed := tandem.flushEntry (tandem.withStack h rest) (view.pending frame)
    exact tandem.release hflushed atEnd frame

/-- A line ends the same frames. -/
theorem closeUpTo {line line' : Line}
    (hcloses : ∀ f, (view.frame f).closesAt registry line' = f.closesAt registry line)
    (count : Nat) :
    R (State.closeUpTo registry line count state)
      (State.closeUpTo registry line' count state') := by
  refine State.closeUpTo_keeps_both (R := R) (fun state state' h => ?_)
    (fun _ _ h => tandem.closeTop h false) count h
  rw [tandem.stack h]
  cases state.stack with
  | nil => rfl
  | cons frame rest => exact hcloses frame

theorem closeFor {line line' : Line}
    (hcloses : ∀ f, (view.frame f).closesAt registry line' = f.closesAt registry line) :
    R (state.closeFor registry line) (state'.closeFor registry line') := by
  simp only [State.closeFor, tandem.stack h, List.length_map]
  exact tandem.closeUpTo h hcloses _

theorem closeAtEnd (count : Nat) :
    R (State.closeAtEnd count state) (State.closeAtEnd count state') := by
  induction count generalizing state state' with
  | zero => exact h
  | succ count ih => exact ih (tandem.closeTop h true)

/-- What still waits at the end of the document is written in the same places. -/
theorem unwind : R (unwind state) (unwind state') := by
  have hclosed := tandem.closeAtEnd h state.stack.length
  simp only [Pass.unwind, tandem.stack h, List.length_map]
  generalize State.closeAtEnd state.stack.length state = closed at hclosed
  generalize State.closeAtEnd state.stack.length state' = closed' at hclosed
  have hended := tandem.withRoot hclosed { closed.root with entry := none }
  rw [view.rootEnded, ← tandem.root hclosed] at hended
  have hpending := view.rootPending closed.root
  rw [← tandem.root hclosed] at hpending
  have hwritten := tandem.flushEntry hended hpending
  generalize { closed with root := { closed.root with entry := none } }.flushEntry
    closed.root.entry = flushed at hwritten
  generalize { closed' with root := { closed'.root with entry := none } }.flushEntry
    closed'.root.entry = flushed' at hwritten
  rw [tandem.orphans hwritten]
  exact tandem.flush (tandem.withOrphans hwritten []) flushed.orphans

end Tandem
end Pass
end Reindent
