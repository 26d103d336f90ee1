import Reindent.Proofs.Pass.Failure

/-!
# Reindent.Proofs.Pass.Lookahead

What a pass does with the lines below.

* `Visit.step_congr`  — a step asks them for two things: whether an attribute has a nested value,
  and which frame a line opens.
* `stepsAbove`        — a pass over the first lines of a document.
* `steps_append`      — the pass goes on from there.
* `stepsAbove_congr`  — the first lines see no more than the next line of the structure.
-/

namespace Reindent

namespace InputLine

theorem nextStructural?_append (above rest : List InputLine) :
    nextStructural? (above ++ rest) = (nextStructural? above).or (nextStructural? rest) := by
  simp only [nextStructural?, List.find?_append]
  cases above.find? _ <;> rfl

theorem nextStructural?_ofLines (first : Nat) (lines : List RawLine) :
    nextStructural? (ofLines first lines) =
      (lines.map fun raw => Line.ofText raw.body).find? Line.isStructural := by
  induction lines generalizing first with
  | nil => rfl
  | cons raw rest ih =>
    rw [List.map_cons, List.find?_cons, ← ih (first + 1), ofLines, nextStructural?, List.find?_cons]
    cases (Line.ofText raw.body).isStructural <;> rfl

theorem ofLines_append (first : Nat) (above rest : List RawLine) :
    ofLines first (above ++ rest) = ofLines first above ++ ofLines (first + above.length) rest := by
  induction above generalizing first with
  | nil => rfl
  | cons raw above ih =>
    rw [List.cons_append, ofLines, ofLines, ih, List.cons_append, List.length_cons,
      Nat.add_right_comm first 1, Nat.add_assoc]

theorem length_ofLines (first : Nat) (lines : List RawLine) :
    (ofLines first lines).length = lines.length := by
  induction lines generalizing first with
  | nil => rfl
  | cons raw rest ih => rw [ofLines, List.length_cons, List.length_cons, ih]

end InputLine

namespace Pass

variable {registry : Registry}

theorem State.settle_congr {state : State} {input : InputLine} {ahead ahead' : Option Line}
    (hopening : (state.record input.line (state.place input.line)).opening? registry input.line
        (state.place input.line) ((state.place input.line).indent input.line) ahead' =
      (state.record input.line (state.place input.line)).opening? registry input.line
        (state.place input.line) ((state.place input.line).indent input.line) ahead) :
    state.settle registry input ahead' = state.settle registry input ahead := by
  rw [settle_eq, settle_eq, hopening]

namespace Visit

variable {visit : Visit}

theorem step_of_not_isText (htext : visit.isText = false) :
    visit.state.step registry visit.input visit.rest =
      if visit.input.line.isStructural then
        { visit.state with body := none }.structural registry visit.input
          (InputLine.nextStructural? visit.rest)
      else .ok ({ visit.state with body := none }.passThrough visit.input) := by
  have hnone : visit.state.body.filter (State.continuesBody visit.input.line) = none := by
    rw [isText, Option.any_eq_false] at htext
    refine Option.filter_eq_none_iff.2 fun body hbody => ?_
    rw [htext body hbody]
    exact Bool.false_ne_true
  rw [State.step, hnone]

/-- The lines below have no part in what becomes of a line outside the structure. -/
theorem step_of_not_isStructural (h : visit.isStructural = false) (rest : List InputLine) :
    visit.state.step registry visit.input rest =
      visit.state.step registry visit.input visit.rest := by
  cases htext : visit.isText with
  | true =>
    obtain ⟨body, hbody, hcontinues⟩ := Option.any_eq_true _ _ |>.1 htext
    have hfilter : visit.state.body.filter (State.continuesBody visit.input.line) = some body :=
      Option.filter_eq_some_iff.2 ⟨hbody, hcontinues⟩
    rw [State.step, State.step, hfilter]
  | false =>
    have hline : visit.input.line.isStructural = false := by simpa [isStructural, htext] using h
    have hstep := @step_of_not_isText registry ⟨visit.state, visit.input, rest⟩ htext
    rw [step_of_not_isText htext, hstep, hline]
    rfl

/-- The lines below have a part in the verdict about a line, and in the frame that it opens. -/
theorem step_congr {rest : List InputLine} (hstructural : visit.isStructural = true)
    (hverdict : (visit.ready registry).verdict registry visit.input.line
        (InputLine.nextStructural? rest) =
      (visit.ready registry).verdict registry visit.input.line
        (InputLine.nextStructural? visit.rest))
    (hopened : opened? registry ⟨visit.state, visit.input, rest⟩ = visit.opened? registry) :
    visit.state.step registry visit.input rest =
      visit.state.step registry visit.input visit.rest := by
  obtain ⟨htext, hline⟩ := isStructural_iff.1 hstructural
  have hstep := @step_of_not_isText registry ⟨visit.state, visit.input, rest⟩ htext
  have hready : { visit.state with body := none }.closeFor registry visit.input.line =
      visit.ready registry := rfl
  -- The line may be settled after an entry in the log.
  have hsettle : ∀ events, ((visit.ready registry).withEvents events).settle registry visit.input
      (InputLine.nextStructural? rest) =
        ((visit.ready registry).withEvents events).settle registry visit.input
          (InputLine.nextStructural? visit.rest) := by
    intro events
    obtain ⟨hstack, hroot⟩ := State.record_withEvents (visit.ready registry) events
      visit.input.line (visit.placement registry)
    have hopening := @State.opening?_congr registry _ _ hstack hroot visit.input.line
      (visit.placement registry) ((visit.placement registry).indent visit.input.line)
    exact State.settle_congr ((hopening _).trans (hopened.trans (hopening _).symm))
  rw [step_of_not_isText htext, hstep, hline, if_pos rfl, if_pos rfl, State.structural,
    State.structural, hready, hverdict]
  cases (visit.ready registry).verdict registry visit.input.line
      (InputLine.nextStructural? visit.rest) with
  | stays => exact hsettle (visit.ready registry).events
  | alreadySet key frame => exact hsettle _
  | stranded key frame => rfl

end Visit

/-! ### The first lines of a document -/

/-- Steps through the lines `above`, with `rest` below them. -/
def stepsAbove (registry : Registry) :
    State → List InputLine → List InputLine → Except Failure State
  | state, [], _ => .ok state
  | state, input :: above, rest =>
    match state.step registry input (above ++ rest) with
    | .ok state => stepsAbove registry state above rest
    | .error failure => .error failure

theorem steps_append (state : State) (above rest : List InputLine) :
    steps registry state (above ++ rest) =
      match stepsAbove registry state above rest with
      | .ok state => steps registry state rest
      | .error failure => .error failure := by
  induction above generalizing state with
  | nil => rfl
  | cons input above ih =>
    rw [List.cons_append, steps, stepsAbove]
    cases state.step registry input (above ++ rest) with
    | error failure => rfl
    | ok next => exact ih next

theorem stepsAbove_congr {rest rest' : List InputLine}
    (hrest : InputLine.nextStructural? rest' = InputLine.nextStructural? rest)
    (state : State) (above : List InputLine) :
    stepsAbove registry state above rest' = stepsAbove registry state above rest := by
  induction above generalizing state with
  | nil => rfl
  | cons input above ih =>
    have hahead : InputLine.nextStructural? (above ++ rest') =
        InputLine.nextStructural? (above ++ rest) := by
      rw [InputLine.nextStructural?_append, InputLine.nextStructural?_append, hrest]
    have hstep : state.step registry input (above ++ rest') =
        state.step registry input (above ++ rest) := by
      simp only [State.step, hahead]
    rw [stepsAbove, stepsAbove, hstep]
    cases state.step registry input (above ++ rest) with
    | error failure => rfl
    | ok next => exact ih next

/-- The visit below the first lines. -/
theorem stepsAbove_of_trail {state : State} {above rest : List InputLine}
    {before after : List Visit} {visit : Visit}
    (h : trail registry state (above ++ rest) = before ++ visit :: after)
    (hlength : above.length = before.length) :
    stepsAbove registry state above rest = .ok visit.state ∧
      trail registry visit.state rest = visit :: after := by
  induction above generalizing state before with
  | nil =>
    obtain rfl := List.length_eq_zero_iff.1 hlength.symm
    cases rest with
    | nil => cases h
    | cons input rest =>
      have hvisit := h
      rw [List.nil_append, List.nil_append, trail, List.cons.injEq] at hvisit
      obtain ⟨rfl, _⟩ := hvisit
      exact ⟨rfl, h⟩
  | cons input above ih =>
    cases before with
    | nil => cases hlength
    | cons first before =>
      rw [List.cons_append, List.cons_append, trail, List.cons.injEq] at h
      rw [stepsAbove]
      cases hstep : state.step registry input (above ++ rest) with
      | error failure =>
        rw [hstep] at h
        cases before <;> cases h.2
      | ok next =>
        rw [hstep] at h
        exact ih h.2 (Nat.succ.inj hlength)

end Pass
end Reindent
