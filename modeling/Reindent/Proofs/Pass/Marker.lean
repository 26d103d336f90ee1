import Reindent.Document
import Reindent.Proofs.Pass.Around
import Reindent.Proofs.Pass.CoreRun

/-!
# Reindent.Proofs.Pass.Marker

A pass over a document below the marker.

The marker is the first child of the document, and lines that stand deeper are taken for its
contents. A line at the left edge ends it, and from there the pass goes on as without the marker.

* `step_marker`      — the marker, as the first line.
* `structural_marked` — the first line that takes part in the structure, at the left edge.
* `steps_marked`     — the lines below the marker.
* `runLines_marker`  — the pass writes the marker, and what it would have written without.
-/

namespace Reindent
namespace Pass

/-- The marker in the output of a pass. -/
def markerLine : OutLine :=
  { Draft.marker with number := 1 }

/-- The marker as a child of the document. -/
def markerEntry : Entry :=
  Entry.ofLine (Line.plain Draft.marker.body .scalar) 0

theorem ofText_marker : Line.ofText Draft.marker.body = Line.plain Draft.marker.body .scalar := by
  decide

namespace State

variable {registry : Registry} {state : State}

/-- The state, if the marker is the last child of the document. -/
def marked (state : State) : State :=
  { state with root := { childInput := some 0, entry := some markerEntry } }

theorem step_marker (rest : List InputLine) :
    State.step {} registry ⟨1, Line.ofText Draft.marker.body, .missing⟩ rest =
      .ok (State.bare [markerLine] {}).marked := by
  rw [ofText_marker]
  rfl

theorem passThrough_marked (state : State) (input : InputLine) :
    state.marked.passThrough input = (state.passThrough input).marked := by
  simp only [passThrough, marked]
  split <;> rfl

theorem step_of_body (hbody : state.body = none) (input : InputLine) (rest : List InputLine) :
    state.step registry input rest =
      if input.line.isStructural then
        state.structural registry input (InputLine.nextStructural? rest)
      else .ok (state.passThrough input) := by
  have hstate : { state with body := none } = state := by
    rw [← hbody]
  simp only [step, hbody, Option.filter_none]
  rw [hstate]

theorem closeFor_nil (hstack : state.stack = []) (line : Line) :
    state.closeFor registry line = state := by
  rw [closeFor, hstack]
  rfl

theorem verdict_nil (hstack : state.stack = []) (line : Line) (ahead : Option Line) :
    state.verdict registry line ahead = .stays := by
  unfold verdict
  rw [hstack]
  cases line.key <;> rfl

theorem place_left (hstack : state.stack = []) (hroot : state.root = {}) {line : Line}
    (hleft : line.indent = 0) : state.place line = .entry 0 := by
  simp [place, hstack, placeAtRoot, hroot, hleft]

theorem place_marked (hstack : state.stack = []) {line : Line} (hleft : line.indent = 0) :
    state.marked.place line = .entry 0 := by
  simp [place, marked, hstack, placeAtRoot, hleft]

/-- The next child of the document takes the place of the marker. -/
theorem record_marked (hstack : state.stack = []) (hroot : state.root = {}) {line : Line}
    (hleft : line.indent = 0) :
    state.marked.record line (.entry 0) = state.record line (.entry 0) := by
  have hpending : markerEntry.pending = [] := rfl
  simp [record, marked, scope, hstack, Scope.record, withScope, hroot, hleft, flushEntry, hpending]

theorem structural_marked (hstack : state.stack = []) (hroot : state.root = {})
    {input : InputLine} (hleft : input.line.indent = 0) (ahead : Option Line) :
    state.marked.structural registry input ahead = state.structural registry input ahead := by
  have hmarked : state.marked.stack = [] := hstack
  simp only [structural, closeFor_nil hstack, closeFor_nil hmarked, verdict_nil hstack,
    verdict_nil hmarked, settle, place_left hstack hroot hleft, place_marked hstack hleft,
    record_marked hstack hroot hleft]

end State

variable {registry : Registry} {state : State}

/-- The lines up to the first that takes part in the structure do not see the marker. If that one
stands at the left edge, the marker is gone after it. -/
theorem steps_marked {inputs : List InputLine} (hstack : state.stack = []) (hroot : state.root = {})
    (hbody : state.body = none)
    (hleft : ∀ line, InputLine.nextStructural? inputs = some line → line.indent = 0) :
    steps registry state.marked inputs = steps registry state inputs ∨
      ∃ last : State, last.stack = [] ∧ last.root = {} ∧ steps registry state inputs = .ok last ∧
        steps registry state.marked inputs = .ok last.marked := by
  induction inputs generalizing state with
  | nil => exact .inr ⟨state, hstack, hroot, rfl, rfl⟩
  | cons input rest ih =>
    have hmarked : state.marked.body = none := hbody
    by_cases hstructural : input.line.isStructural = true
    -- at the left edge: the line takes the place of the marker
    · have hnext : InputLine.nextStructural? (input :: rest) = some input.line :=
        InputLine.nextStructural?_cons hstructural rest
      have hsame : state.marked.step registry input rest = state.step registry input rest := by
        rw [State.step_of_body hbody, State.step_of_body hmarked, if_pos hstructural,
          if_pos hstructural, State.structural_marked hstack hroot (hleft _ hnext)]
      left
      simp only [steps, hsame]
    -- blank lines, comments and lines with tabs do not look at the children of the document
    · have hnext : InputLine.nextStructural? (input :: rest) = InputLine.nextStructural? rest :=
        InputLine.nextStructural?_of_loose (by simpa using hstructural) rest
      have hpassed : state.step registry input rest = .ok (state.passThrough input) := by
        rw [State.step_of_body hbody, if_neg hstructural]
      have hpassed' : state.marked.step registry input rest =
          .ok (state.passThrough input).marked := by
        rw [State.step_of_body hmarked, if_neg hstructural, State.passThrough_marked]
      have hroot' := State.root_passThrough state input
      have hbody' := State.body_passThrough state input
      have hstack' := State.stack_passThrough state input
      rw [hnext] at hleft
      simp only [steps, hpassed, hpassed']
      exact ih (hstack'.trans hstack) (hroot'.trans hroot) (hbody'.trans hbody) hleft

theorem unwind_marked (hstack : state.stack = []) (hroot : state.root = {}) :
    unwind state.marked = { unwind state with root := { childInput := some 0 } } := by
  have hpending : markerEntry.pending = [] := rfl
  have hmarked : state.marked.stack = [] := hstack
  simp only [unwind, hstack, hmarked, List.length_nil, State.closeAtEnd]
  simp only [State.marked, State.flushEntry, hpending, State.flush_nil, hroot]
  rfl

theorem finish_marked (hstack : state.stack = []) (hroot : state.root = {}) (count : Nat) :
    (finish state.marked).bind (collect count) = (finish state).bind (collect count) := by
  simp only [finish, unwind_marked hstack hroot]
  generalize unwind state = final
  cases hfinal : final.stack with
  | cons frame rest => rfl
  | nil =>
    simp only
    split <;> rfl

/-- What is left of a pass with lines to go. -/
def complete (registry : Registry) (count : Nat) (state : State) (inputs : List InputLine) :
    Except Failure Pass :=
  (steps registry state inputs).bind fun state => (finish state).bind (collect count)

theorem runLines_eq_complete (registry : Registry) (lines : List RawLine) :
    runLines registry lines = complete registry lines.length {} (InputLine.ofLines 1 lines) := by
  unfold runLines complete
  cases steps registry {} (InputLine.ofLines 1 lines) with
  | error failure => rfl
  | ok state =>
    simp only [Except.bind]
    cases finish state <;> rfl

theorem complete_marked {inputs : List InputLine} (hstack : state.stack = [])
    (hroot : state.root = {}) (hbody : state.body = none)
    (hleft : ∀ line, InputLine.nextStructural? inputs = some line → line.indent = 0)
    (count : Nat) :
    complete registry count state.marked inputs = complete registry count state inputs := by
  unfold complete
  rcases @steps_marked registry state inputs hstack hroot hbody hleft with
    hsame | ⟨last, hlastStack, hlastRoot, hlast, hlast'⟩
  · rw [hsame]
  · rw [hlast, hlast']
    exact finish_marked hlastStack hlastRoot count

theorem complete_bare {above : List OutLine} (habove : above.takeWhile OutLine.trivia = [])
    {lines : List RawLine} {pass : Pass} (h : runLines registry lines = .ok pass) :
    ∃ pass', complete registry (lines.length + above.length) (State.bare above {})
        ((InputLine.ofLines 1 lines).map (InputLine.bare above.length)) = .ok pass' ∧
      pass'.lines = above.reverse ++ pass.lines.map (OutLine.bare above.length) := by
  obtain ⟨state, hsteps, hfinish, hcollect⟩ := runLines_ok h
  obtain ⟨hlength, hlines, _, _, _⟩ := collect_ok hcollect
  have hread : ∀ input ∈ InputLine.ofLines 1 lines, input.line.IsRead :=
    fun _ hi => InputLine.isRead_of_mem_ofLines hi
  have hcount : ((unwind state).bare above).written.length = lines.length + above.length := by
    rw [State.bare, List.length_append, List.length_map, hlength]
  have hsteps' := bare_steps habove registry hread {}
  have hfinish' := bare_finish habove state
  rw [hsteps] at hsteps'
  rw [hfinish] at hfinish'
  simp only [complete, hsteps', outcome, Except.bind, hfinish', collect, hcount, ne_eq,
    not_true_eq_false, if_false]
  refine ⟨_, rfl, ?_⟩
  simp only [hlines, State.bare, List.reverse_append, List.map_reverse]

/-- Where the first line that takes part in the structure stands at the left edge, a pass over the
lines below a marker writes the marker and the same lines. -/
theorem runLines_marker {lines : List RawLine} {pass : Pass}
    (h : runLines registry lines = .ok pass)
    (hleft : ∀ line, InputLine.nextStructural? (InputLine.ofLines 1 lines) = some line →
      line.indent = 0) :
    ∃ pass',
      runLines registry (⟨Draft.marker.body, .missing⟩ :: lines.map RawLine.bare) = .ok pass' ∧
        pass'.lines = markerLine :: pass.lines.map (OutLine.bare 1) := by
  have hinputs : InputLine.ofLines 2 (lines.map RawLine.bare) =
      (InputLine.ofLines 1 lines).map (InputLine.bare 1) := InputLine.ofLines_bare 1 1 lines
  have hstructural : ∀ line, InputLine.nextStructural?
      ((InputLine.ofLines 1 lines).map (InputLine.bare 1)) = some line → line.indent = 0 := by
    intro line hnext
    rw [InputLine.nextStructural?_bare, Option.map_eq_some_iff] at hnext
    obtain ⟨raw, hraw, rfl⟩ := hnext
    exact hleft raw hraw
  obtain ⟨pass', hcomplete, hlines⟩ := @complete_bare registry [markerLine] rfl lines pass h
  have hbelow : complete registry (lines.length + 1) (State.bare [markerLine] {})
      ((InputLine.ofLines 1 lines).map (InputLine.bare 1)) = .ok pass' := hcomplete
  refine ⟨pass', ?_, hlines⟩
  rw [runLines_eq_complete, ← hbelow,
    ← @complete_marked registry (State.bare [markerLine] {}) _ rfl rfl rfl hstructural]
  simp only [complete, InputLine.ofLines, steps, State.step_marker, hinputs, List.length_cons,
    List.length_map]

end Pass
end Reindent
