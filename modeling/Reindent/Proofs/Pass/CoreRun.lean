import Reindent.Proofs.Pass.Core

/-!
# Reindent.Proofs.Pass.CoreRun

A pass reads neither the ends of lines nor what has been written above its document.

* `bare_settle`, `bare_step` — a step on bare lines does the same.
* `bare_runLines`   — a pass over bare lines is the pass over the lines, made bare.
* `runLines_congr`, `runLines_of_bare` — lines that differ in their ends have passes that do.
-/

namespace Reindent
namespace Pass
namespace State

variable {registry : Registry} {above : List OutLine}

theorem fail_bare {α : Type} (state : State) (fault : Fault) :
    ((state.bare above).fail fault : Except Failure α) =
      .error (Failure.bare above.length ⟨fault, state.events.reverse⟩) := by
  simp only [fail, bare, Failure.bare, List.map_reverse]

theorem bare_openFrame (state : State) {frame : Frame} (hfresh : frame.bare above.length = frame) :
    (state.bare above).openFrame frame =
      outcome above.length (bare above) (state.openFrame frame) := by
  have hlog :
      (state.bare above).log (.opened frame.role frame.key frame.baseIndent frame.inputIndent) =
        (state.log (.opened frame.role frame.key frame.baseIndent frame.inputIndent)).bare above :=
    rfl
  simp only [openFrame, hlog]
  generalize state.log (.opened frame.role frame.key frame.baseIndent frame.inputIndent) = state
  have hpush : (state.bare above).stack.push frame =
      (state.stack.push frame).map (List.map (Frame.bare above.length)) := by
    cases hstack : state.stack with
    | nil => simp only [Stack.push, bare, hstack, List.map_nil, Except.map, List.map_cons, hfresh]
    | cons top rest =>
      have hbase : (top.bare above.length).baseIndent = top.baseIndent := rfl
      have hkey : (top.bare above.length).key = top.key := rfl
      simp only [Stack.push, bare, hstack, List.map_cons, hbase, hkey]
      split
      · rfl
      · simp only [Except.map, List.map_cons, hfresh]
  rw [hpush]
  cases state.stack.push frame with
  | ok stack => rfl
  | error fault => exact fail_bare state fault

/-- A line that has been written opens the same frame. -/
theorem bare_opened (state : State) {line : Line} (hread : line.IsRead) (placement : Placement)
    (indent : Nat) (ahead : Option Line) :
    (match (state.bare above).opening? registry line.bare placement indent
          (ahead.map Line.bare) with
      | some frame => (state.bare above).openFrame frame
      | none => .ok (state.bare above)) =
      outcome above.length (bare above)
        (match state.opening? registry line placement indent ahead with
          | some frame => state.openFrame frame
          | none => .ok state) := by
  rw [opening?_bare state hread]
  cases hopening : state.opening? registry line placement indent ahead with
  | none => rfl
  | some frame => exact bare_openFrame state (Frame.bare_of_waiting _ (waiting_opening? hopening))

variable (habove : above.takeWhile OutLine.trivia = [])
include habove

theorem bare_settle (state : State) {input : InputLine} (hread : input.line.IsRead)
    (ahead : Option Line) :
    (state.bare above).settle registry (input.bare above.length) (ahead.map Line.bare) =
      outcome above.length (bare above) (state.settle registry input ahead) := by
  have hline : (input.bare above.length).line = input.line.bare := rfl
  have hplacement : (state.place input.line).indent input.line.bare =
      (state.place input.line).indent input.line := by
    cases state.place input.line <;> rfl
  have hwritten :=
    @bare_writeAt above (state.record input.line (state.place input.line)) input hread
    ((state.place input.line).indent input.line)
  rw [bare_record habove state hread] at hwritten
  simp only [settle, hline, place_bare, hplacement, ← hwritten]
  exact bare_opened
    { (state.record input.line (state.place input.line)).writeAt input
        ((state.place input.line).indent input.line) with
      body := if input.line.blockScalar then some ⟨input.line.indent,
          ((state.place input.line).indent input.line : Int) - input.line.indent⟩ else none }
    hread (state.place input.line) ((state.place input.line).indent input.line) ahead

theorem bare_structural (state : State) {input : InputLine} (hread : input.line.IsRead)
    (ahead : Option Line) :
    (state.bare above).structural registry (input.bare above.length) (ahead.map Line.bare) =
      outcome above.length (bare above) (state.structural registry input ahead) := by
  have hline : (input.bare above.length).line = input.line.bare := rfl
  simp only [structural, hline, ← bare_closeFor habove, verdict_bare]
  cases (state.closeFor registry input.line).verdict registry input.line ahead with
  | stays => exact bare_settle habove _ hread ahead
  | alreadySet key frame =>
    exact bare_settle habove ((state.closeFor registry input.line).log
      (.alreadySet input.number key frame.key)) hread ahead
  | stranded key frame =>
    have hlifted := @bare_liftOut above ((state.closeFor registry input.line).log
      (.stranded input.number key frame.role frame.key)) input hread key
    simp only [Verdict.bare, outcome, hlifted]
    rfl

theorem bare_step (state : State) {input : InputLine} (hread : input.line.IsRead)
    (rest : List InputLine) :
    (state.bare above).step registry (input.bare above.length)
        (rest.map (InputLine.bare above.length)) =
      outcome above.length (bare above) (state.step registry input rest) := by
  have hbody : (state.bare above).body.filter (continuesBody (input.bare above.length).line) =
      state.body.filter (continuesBody input.line) := rfl
  have hstructural : (input.bare above.length).line.isStructural = input.line.isStructural := rfl
  simp only [step, hbody, hstructural, InputLine.nextStructural?_bare]
  cases state.body.filter (continuesBody input.line) with
  | some body => simp only [outcome, bare_writeBody _ hread]
  | none =>
    cases input.line.isStructural with
    | true => exact bare_structural habove { state with body := none } hread _
    | false =>
      have hpassed := @bare_passThrough above { state with body := none } input
      simp only [Bool.false_eq_true, if_false, outcome, hpassed]
      rfl

end State

section Above

variable {above : List OutLine} (habove : above.takeWhile OutLine.trivia = [])
include habove

theorem bare_steps (registry : Registry) {inputs : List InputLine}
    (hread : ∀ input ∈ inputs, input.line.IsRead) (state : State) :
    steps registry (state.bare above) (inputs.map (InputLine.bare above.length)) =
      outcome above.length (State.bare above) (steps registry state inputs) := by
  induction inputs generalizing state with
  | nil => rfl
  | cons input rest ih =>
    have hrest : ∀ input ∈ rest, input.line.IsRead :=
      fun i hi => hread i (List.mem_cons_of_mem _ hi)
    simp only [steps, List.map_cons,
      State.bare_step habove state (hread input List.mem_cons_self)]
    cases state.step registry input rest with
    | error failure => rfl
    | ok next => exact ih hrest next

theorem bare_unwind (state : State) : (unwind state).bare above = unwind (state.bare above) :=
  ((State.tandem_bare habove).unwind rfl).symm

theorem bare_finish (state : State) :
    finish (state.bare above) = outcome above.length (State.bare above) (finish state) := by
  simp only [finish, ← bare_unwind habove]
  generalize unwind state = final
  cases hstack : final.stack with
  | nil =>
    have hbare : (final.bare above).stack = [] := by
      rw [State.bare, hstack, List.map_nil]
    have hbuffered : (final.bare above).buffered = final.buffered := rfl
    have hemitted : (final.bare above).emitted = final.emitted := rfl
    simp only [hbare, hbuffered, hemitted]
    split
    · exact State.fail_bare final _
    · rfl
  | cons frame rest =>
    have hbare : (final.bare above).stack =
        frame.bare above.length :: rest.map (Frame.bare above.length) := by
      rw [State.bare, hstack, List.map_cons]
    simp only [hbare, List.length_cons, List.length_map]
    exact State.fail_bare final _

end Above

theorem bare_collect (count : Nat) (state : State) :
    collect count (state.bare []) = outcome 0 Pass.bare (collect count state) := by
  have hlength : (state.bare []).written.length = state.written.length := by
    rw [State.bare, List.append_nil, List.length_map]
  simp only [collect, hlength]
  split
  · exact State.fail_bare state _
  · simp only [outcome, bare, State.bare, List.map_reverse, List.append_nil]
    rfl

theorem bare_runLines (registry : Registry) (lines : List RawLine) :
    runLines registry (lines.map RawLine.bare) = outcome 0 Pass.bare (runLines registry lines) := by
  have hread : ∀ input ∈ InputLine.ofLines 1 lines, input.line.IsRead :=
    fun _ hi => InputLine.isRead_of_mem_ofLines hi
  have hsteps := @bare_steps [] List.takeWhile_nil registry _ hread {}
  have hempty : State.bare [] {} = {} := rfl
  have hinputs : InputLine.ofLines 1 (lines.map RawLine.bare) =
      (InputLine.ofLines 1 lines).map (InputLine.bare 0) := InputLine.ofLines_bare 0 1 lines
  rw [hempty, List.length_nil, ← hinputs] at hsteps
  simp only [runLines, hsteps, List.length_map]
  cases steps registry {} (InputLine.ofLines 1 lines) with
  | error failure => rfl
  | ok state =>
    have hfinish := @bare_finish [] List.takeWhile_nil state
    rw [List.length_nil] at hfinish
    simp only [outcome, hfinish]
    cases finish state with
    | error failure => rfl
    | ok final => exact bare_collect lines.length final

/-- Documents that differ in the ends of their lines have the same passes, but for the ends of the
lines. -/
theorem runLines_congr (registry : Registry) {lines lines' : List RawLine}
    (h : lines.map RawLine.bare = lines'.map RawLine.bare) :
    outcome 0 Pass.bare (runLines registry lines) =
      outcome 0 Pass.bare (runLines registry lines') := by
  rw [← bare_runLines, h, bare_runLines]

/-- Lines that only differ in their ends have a pass that only differs there. -/
theorem runLines_of_bare {registry : Registry} {lines lines' : List RawLine} {pass : Pass}
    (h : runLines registry lines = .ok pass)
    (hbare : lines'.map RawLine.bare = lines.map RawLine.bare) :
    ∃ pass', runLines registry lines' = .ok pass' ∧ pass'.bare = pass.bare := by
  have hcongr := runLines_congr registry hbare
  rw [h] at hcongr
  cases hrun : runLines registry lines' with
  | error failure =>
    rw [hrun] at hcongr
    cases hcongr
  | ok pass' =>
    rw [hrun] at hcongr
    refine ⟨pass', rfl, ?_⟩
    simpa [outcome] using hcongr

end Pass
end Reindent
