import Reindent.Proofs.Pass.Outcome

/-!
# Reindent.Proofs.Pass.Stats

What counts and what does not.

* `stats_closeFor`, `stats_record`, `stats_openFrame` — moves between the buffers are not counted.
* `documentStart_runLines` — no pass adds a document start marker.
-/

namespace Reindent
namespace Pass
namespace State

@[simp] theorem stats_log (state : State) (event : Event) : (state.log event).stats = state.stats :=
  rfl

@[simp] theorem stats_flush (state : State) (waiting : List Relocation) :
    (state.flush waiting).stats = state.stats := rfl

@[simp] theorem stats_flushEntry (state : State) (entry : Option Entry) :
    (state.flushEntry entry).stats = state.stats := by
  cases entry <;> rfl

@[simp] theorem stats_handOver (state : State) (waiting : List Relocation) :
    (state.handOver waiting).stats = state.stats := by
  simp only [handOver]
  split
  · rfl
  · split <;> rfl

@[simp] theorem stats_release (state : State) (atEnd : Bool) (frame : Frame) :
    (state.release atEnd frame).stats = state.stats := by
  simp only [release]
  split
  · rfl
  · split
    · rfl
    · exact stats_handOver _ _

@[simp] theorem stats_closeTop (state : State) (atEnd : Bool) :
    (state.closeTop atEnd).stats = state.stats := by
  cases hstack : state.stack with
  | nil => simp [closeTop, hstack]
  | cons frame rest => simp [closeTop, hstack]

@[simp] theorem stats_closeFor (state : State) (registry : Registry) (line : Line) :
    (state.closeFor registry line).stats = state.stats :=
  closeFor_keeps (P := fun closed => closed.stats = state.stats)
    (fun closed h => (stats_closeTop closed false).trans h) registry line rfl

theorem stats_closeAtEnd (count : Nat) (state : State) :
    (closeAtEnd count state).stats = state.stats :=
  closeAtEnd_keeps (P := fun closed => closed.stats = state.stats)
    (fun closed h => (stats_closeTop closed true).trans h) count rfl

@[simp] theorem stats_withScope (state : State) (scope : Scope) :
    (state.withScope scope).stats = state.stats := by
  cases hstack : state.stack <;> simp [withScope, hstack]

@[simp] theorem stats_record (state : State) (line : Line) (placement : Placement) :
    (state.record line placement).stats = state.stats := by
  simp [record]

theorem stats_openFrame {state state' : State} {frame : Frame}
    (h : state.openFrame frame = .ok state') : state'.stats = state.stats := by
  simp only [openFrame] at h
  split at h
  · cases h
    rfl
  · cases h

theorem stats_unwind (state : State) : (unwind state).stats = state.stats := by
  have h := stats_closeAtEnd state.stack.length state
  simpa [unwind] using h

/-! ### The document start marker is not the business of a pass -/

theorem documentStart_writeAt (state : State) (input : InputLine) (indent : Nat) :
    (state.writeAt input indent).stats.documentStart = state.stats.documentStart := by
  simp only [writeAt]
  split <;> rfl

theorem documentStart_writeBody (state : State) (input : InputLine) (shift : Int) :
    (state.writeBody input shift).stats.documentStart = state.stats.documentStart := by
  simp only [writeBody]
  split <;> rfl

theorem documentStart_passThrough (state : State) (input : InputLine) :
    (state.passThrough input).stats.documentStart = state.stats.documentStart := by
  simp only [passThrough]
  split <;> rfl

theorem documentStart_liftOut (state : State) (input : InputLine) (key : Text) :
    (state.liftOut input key).stats.documentStart = state.stats.documentStart := by
  simp only [liftOut]
  split <;> rfl

theorem documentStart_settle {state state' : State} {registry : Registry} {input : InputLine}
    {ahead : Option Line} (h : state.settle registry input ahead = .ok state') :
    state'.stats.documentStart = state.stats.documentStart := by
  simp only [settle] at h
  split at h
  · rw [stats_openFrame h, documentStart_writeAt, stats_record]
  · cases h
    rw [documentStart_writeAt, stats_record]

theorem documentStart_structural {state state' : State} {registry : Registry} {input : InputLine}
    {ahead : Option Line} (h : state.structural registry input ahead = .ok state') :
    state'.stats.documentStart = state.stats.documentStart := by
  simp only [structural] at h
  split at h
  · rw [documentStart_settle h, stats_closeFor]
  · rw [documentStart_settle h, stats_log, stats_closeFor]
  · cases h
    rw [documentStart_liftOut, stats_log, stats_closeFor]

theorem documentStart_step {state state' : State} {registry : Registry} {input : InputLine}
    {rest : List InputLine} (h : state.step registry input rest = .ok state') :
    state'.stats.documentStart = state.stats.documentStart := by
  simp only [step] at h
  split at h
  · cases h
    exact documentStart_writeBody _ _ _
  · split at h
    · rw [documentStart_structural h]
    · cases h
      exact documentStart_passThrough _ _

end State

theorem documentStart_steps {registry : Registry} {inputs : List InputLine} {state state' : State}
    (h : steps registry state inputs = .ok state') :
    state'.stats.documentStart = state.stats.documentStart := by
  induction inputs generalizing state with
  | nil =>
    cases h
    rfl
  | cons input rest ih =>
    obtain ⟨next, hstep, hrest⟩ := steps_cons_ok h
    rw [ih hrest, State.documentStart_step hstep]

/-- No pass adds a document start marker. -/
theorem documentStart_runLines {registry : Registry} {lines : List RawLine} {pass : Pass}
    (h : runLines registry lines = .ok pass) : pass.stats.documentStart = false := by
  obtain ⟨state, hsteps, _, hcollect⟩ := runLines_ok h
  obtain ⟨_, _, _, hstats, _⟩ := collect_ok hcollect
  rw [hstats, State.stats_unwind, documentStart_steps hsteps]

end Pass
end Reindent
