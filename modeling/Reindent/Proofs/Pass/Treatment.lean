import Reindent.Proofs.Pass.Lookahead
import Reindent.Proofs.Pass.Trail

/-!
# Reindent.Proofs.Pass.Treatment

What becomes of a line does not depend on the lines behind the next line of the structure.

* `Treatment`        — what a pass does with a line that takes part in the structure.
* `treatmentAt?`     — what it does with the line at an index, and `stateAfter` what it knows then.
* `AgreeThrough`     — two documents with the same first lines and the same line of the structure
  below them.
* `map_sight_trail`  — passes over such documents see the same at the first lines.
* `one_line_lookahead` — so they do the same with them.
-/

namespace Reindent
namespace Pass

/-- What a pass does with a line that takes part in the structure. -/
inductive Treatment where
  /-- The line is lifted out, and comes back as `out`. -/
  | relocated (out : OutLine)
  /-- The line stays in its place, as `out`. -/
  | emitted (out : OutLine)
  /-- The pass breaks off. -/
  | broken (failure : Failure)
  deriving DecidableEq, Repr

namespace Visit

/-- What becomes of the line, if it takes part in the structure. -/
def treatment? (registry : Registry) (visit : Visit) : Option Treatment :=
  if visit.isStructural then
    match visit.state.step registry visit.input visit.rest with
    | .error failure => some (.broken failure)
    | .ok _ =>
      if visit.isRelocated registry then some (.relocated (visit.out registry))
      else some (.emitted (visit.out registry))
  else none

/-- What a pass goes by at a line: what it knows, the line, and the next line of the structure. -/
def sight (visit : Visit) : State × InputLine × Option Line :=
  (visit.state, visit.input, InputLine.nextStructural? visit.rest)

end Visit

/-- What a pass over the lines does with the one at `index`, counted from 0. There is no answer if
the line has no part in the structure, or the pass does not come to it. -/
def treatmentAt? (registry : Registry) (lines : List RawLine) (index : Nat) : Option Treatment :=
  (trail registry {} (InputLine.ofLines 1 lines))[index]?.bind (Visit.treatment? registry)

/-- What a pass over the lines knows after the first `count`, unless it has broken off. -/
def stateAfter (registry : Registry) (count : Nat) (lines : List RawLine) : Except Failure State :=
  stepsAbove registry {} ((InputLine.ofLines 1 lines).take count)
    ((InputLine.ofLines 1 lines).drop count)

/-- The documents agree up to the line at `index`, and on the next line of the structure behind
it. -/
structure AgreeThrough (index : Nat) (lines lines' : List RawLine) : Prop where
  above : lines'.take (index + 1) = lines.take (index + 1)
  ahead : ((lines'.drop (index + 1)).map fun raw => Line.ofText raw.body).find? Line.isStructural =
    ((lines.drop (index + 1)).map fun raw => Line.ofText raw.body).find? Line.isStructural

/-- It is enough that all lines are the same down to one of the structure. -/
theorem agreeThrough_of_next {index : Nat} {above between rest rest' : List RawLine}
    {next : RawLine} (habove : above.length = index + 1)
    (hnext : (Line.ofText next.body).isStructural = true) :
    AgreeThrough index (above ++ (between ++ next :: rest))
      (above ++ (between ++ next :: rest')) where
  above := by rw [← habove, List.take_left, List.take_left]
  ahead := by
    rw [← habove, List.drop_left, List.drop_left]
    simp only [List.map_append, List.map_cons, List.find?_append, List.find?_cons, hnext]

variable {registry : Registry}

/-! ### What the first lines see -/

/-- The lines below have no part in what is seen from a line, but for the next one of the
structure. -/
theorem map_sight_trail {rest rest' : List InputLine}
    (hrest : InputLine.nextStructural? rest' = InputLine.nextStructural? rest) (state : State)
    (above : List InputLine) :
    ((trail registry state (above ++ rest')).take above.length).map Visit.sight =
      ((trail registry state (above ++ rest)).take above.length).map Visit.sight := by
  induction above generalizing state with
  | nil => rfl
  | cons input above ih =>
    have hahead : InputLine.nextStructural? (above ++ rest') =
        InputLine.nextStructural? (above ++ rest) := by
      rw [InputLine.nextStructural?_append, InputLine.nextStructural?_append, hrest]
    have hstep : state.step registry input (above ++ rest') =
        state.step registry input (above ++ rest) := by
      simp only [State.step, hahead]
    simp only [List.cons_append, trail, List.length_cons, List.take_succ_cons, List.map_cons,
      Visit.sight, hahead, hstep]
    cases state.step registry input (above ++ rest) with
    | error failure => rfl
    | ok next => exact congrArg _ (ih next)

namespace Visit

variable {visit visit' : Visit}

theorem sight_eq_iff :
    visit'.sight = visit.sight ↔ visit'.state = visit.state ∧ visit'.input = visit.input ∧
      InputLine.nextStructural? visit'.rest = InputLine.nextStructural? visit.rest := by
  simp only [sight, Prod.mk.injEq]

theorem step_congr_sight (h : visit'.sight = visit.sight) :
    visit'.state.step registry visit'.input visit'.rest =
      visit.state.step registry visit.input visit.rest := by
  obtain ⟨hstate, hinput, hahead⟩ := sight_eq_iff.1 h
  simp only [State.step, hstate, hinput, hahead]

theorem isLifted_congr_sight (h : visit'.sight = visit.sight) :
    visit'.isLifted registry = visit.isLifted registry := by
  obtain ⟨hstate, hinput, hahead⟩ := sight_eq_iff.1 h
  simp only [isLifted, ready, hstate, hinput, hahead]

theorem isStructural_congr_sight (h : visit'.sight = visit.sight) :
    visit'.isStructural = visit.isStructural := by
  obtain ⟨hstate, hinput, _⟩ := sight_eq_iff.1 h
  simp only [isStructural, isText, hstate, hinput]

theorem isRelocated_congr_sight (h : visit'.sight = visit.sight) :
    visit'.isRelocated registry = visit.isRelocated registry := by
  rw [isRelocated, isRelocated, isStructural_congr_sight h, isLifted_congr_sight h]

theorem out_congr_sight (h : visit'.sight = visit.sight) :
    visit'.out registry = visit.out registry := by
  have hlifted := @isLifted_congr_sight registry _ _ h
  have hrelocated := @isRelocated_congr_sight registry _ _ h
  obtain ⟨hstate, hinput, _⟩ := sight_eq_iff.1 h
  -- Whether the line is lifted is all that its text asks of the lines below.
  obtain ⟨state, input, rest⟩ := visit
  obtain ⟨state', input', rest'⟩ := visit'
  obtain rfl : state' = state := hstate
  obtain rfl : input' = input := hinput
  rw [out, out, column, column, hlifted, hrelocated]
  rfl

theorem treatment?_congr_sight (h : visit'.sight = visit.sight) :
    visit'.treatment? registry = visit.treatment? registry := by
  rw [treatment?, treatment?, isStructural_congr_sight h, step_congr_sight h,
    isRelocated_congr_sight h, out_congr_sight h]

end Visit

/-! ### Documents that agree -/

namespace AgreeThrough

variable {index : Nat} {lines lines' : List RawLine} (h : AgreeThrough index lines lines')
include h

theorem symm : AgreeThrough index lines' lines :=
  ⟨h.above.symm, h.ahead.symm⟩

/-- Documents that agree to the end of one of them are the same. -/
theorem eq_of_length_le (hlength : lines.length ≤ index) : lines' = lines := by
  have habove := h.above
  have htake := congrArg List.length habove
  rw [List.length_take, List.length_take] at htake
  rwa [List.take_of_length_le (by omega), List.take_of_length_le (by omega)] at habove

/-- The documents as lines of the input: the same ones in front, and then lines with the same one
of the structure in front. -/
theorem exists_ofLines (hlength : index < lines.length) :
    ∃ above rest rest' : List InputLine, InputLine.ofLines 1 lines = above ++ rest ∧
      InputLine.ofLines 1 lines' = above ++ rest' ∧ above.length = index + 1 ∧
      InputLine.nextStructural? rest' = InputLine.nextStructural? rest := by
  have hlines := InputLine.ofLines_append 1 (lines.take (index + 1)) (lines.drop (index + 1))
  have hlines' := InputLine.ofLines_append 1 (lines'.take (index + 1)) (lines'.drop (index + 1))
  rw [List.take_append_drop] at hlines hlines'
  rw [h.above] at hlines'
  refine ⟨_, _, _, hlines, hlines', ?_, ?_⟩
  · rw [InputLine.length_ofLines, List.length_take, Nat.min_eq_left hlength]
  · rw [InputLine.nextStructural?_ofLines, InputLine.nextStructural?_ofLines, h.ahead]

theorem map_sight_take :
    ((trail registry {} (InputLine.ofLines 1 lines')).take (index + 1)).map Visit.sight =
      ((trail registry {} (InputLine.ofLines 1 lines)).take (index + 1)).map Visit.sight := by
  rcases Nat.lt_or_ge index lines.length with hlength | hlength
  · obtain ⟨above, rest, rest', hlines, hlines', habove, hrest⟩ := h.exists_ofLines hlength
    rw [hlines, hlines', ← habove]
    exact map_sight_trail hrest {} above
  · rw [h.eq_of_length_le hlength]

theorem stateAfter_eq :
    stateAfter registry (index + 1) lines' = stateAfter registry (index + 1) lines := by
  rcases Nat.lt_or_ge index lines.length with hlength | hlength
  · obtain ⟨above, rest, rest', hlines, hlines', habove, hrest⟩ := h.exists_ofLines hlength
    rw [stateAfter, stateAfter, hlines, hlines', ← habove, List.take_left, List.take_left,
      List.drop_left, List.drop_left]
    exact stepsAbove_congr hrest {} above
  · rw [h.eq_of_length_le hlength]

/-- The passes come to the same line with the same sight, up to the line at `index`. -/
theorem getElem?_map_sight {i : Nat} (hi : i ≤ index) :
    (trail registry {} (InputLine.ofLines 1 lines'))[i]?.map Visit.sight =
      (trail registry {} (InputLine.ofLines 1 lines))[i]?.map Visit.sight := by
  have htake := congrArg (fun sights => sights[i]?) (@map_sight_take registry _ _ _ h)
  simpa only [List.getElem?_map, List.getElem?_take_of_lt (Nat.lt_succ_of_le hi)] using htake

theorem treatmentAt?_eq {i : Nat} (hi : i ≤ index) :
    treatmentAt? registry lines' i = treatmentAt? registry lines i := by
  have hsight := @getElem?_map_sight registry _ _ _ h _ hi
  rw [treatmentAt?, treatmentAt?]
  cases hvisit : (trail registry {} (InputLine.ofLines 1 lines))[i]? with
  | none =>
    rw [hvisit, Option.map_none, Option.map_eq_none_iff] at hsight
    rw [hsight]
  | some visit =>
    rw [hvisit, Option.map_some, Option.map_eq_some_iff] at hsight
    obtain ⟨visit', hvisit', hsame⟩ := hsight
    rw [hvisit']
    exact Visit.treatment?_congr_sight hsame

end AgreeThrough

/-! ### What the pass returns -/

theorem input_of_getElem?_trail {inputs : List InputLine} {state : State} {visit : Visit} {i : Nat}
    (h : (trail registry state inputs)[i]? = some visit) : inputs[i]? = some visit.input := by
  induction inputs generalizing state i with
  | nil => cases h
  | cons input rest ih =>
    rw [trail] at h
    cases i with
    | zero =>
      obtain rfl := Option.some.inj h
      rfl
    | succ i =>
      rw [List.getElem?_cons_succ] at h ⊢
      split at h
      · exact ih h
      · cases h

theorem number_of_getElem?_trail {lines : List RawLine} {visit : Visit} {i : Nat}
    (h : (trail registry {} (InputLine.ofLines 1 lines))[i]? = some visit) :
    visit.input.number = i + 1 := by
  have hinput := congrArg (Option.map InputLine.number) (input_of_getElem?_trail h)
  rw [← List.getElem?_map, InputLine.map_number_ofLines, Option.map_some,
    List.getElem?_eq_some_iff] at hinput
  obtain ⟨hlength, hnumber⟩ := hinput
  rw [List.getElem_range'] at hnumber
  omega

/-- A line of the output comes of the line of the input with its number. -/
theorem exists_getElem?_of_mem {lines : List RawLine} {pass : Pass} {out : OutLine}
    (hrun : runLines registry lines = .ok pass) (hout : out ∈ pass.lines) :
    ∃ i visit, (trail registry {} (InputLine.ofLines 1 lines))[i]? = some visit ∧
      visit.out registry = out ∧ out.number = i + 1 := by
  obtain ⟨visit, hvisit, rfl⟩ := List.mem_map.1 ((perm_trail hrun).subset hout)
  obtain ⟨i, hi⟩ := List.mem_iff_getElem?.1 hvisit
  exact ⟨i, visit, hi, rfl, number_of_getElem?_trail hi⟩

theorem runLines_of_broken {lines : List RawLine} {failure : Failure} {i : Nat}
    (h : treatmentAt? registry lines i = some (.broken failure)) :
    runLines registry lines = .error failure := by
  obtain ⟨visit, hvisit, htreatment⟩ := Option.bind_eq_some_iff.1 h
  have hstep : visit.state.step registry visit.input visit.rest = .error failure := by
    rw [Visit.treatment?] at htreatment
    split at htreatment
    · split at htreatment
      · rename_i broken hstep
        cases htreatment
        exact hstep
      · split at htreatment <;> cases htreatment
    · cases htreatment
  have hsteps : steps registry {} (InputLine.ofLines 1 lines) = .error failure :=
    error_steps_iff.2 ⟨visit, List.mem_of_getElem? hvisit, hstep⟩
  rw [runLines, hsteps]

theorem AgreeThrough.mem_lines {index : Nat} {lines lines' : List RawLine} {pass pass' : Pass}
    {out : OutLine} (h : AgreeThrough index lines lines')
    (hrun : runLines registry lines = .ok pass) (hrun' : runLines registry lines' = .ok pass')
    (hnumber : out.number ≤ index + 1) (hout : out ∈ pass.lines) : out ∈ pass'.lines := by
  obtain ⟨i, visit, hvisit, rfl, hi⟩ := exists_getElem?_of_mem hrun hout
  have hsight := @AgreeThrough.getElem?_map_sight registry _ _ _ h i (by omega)
  rw [hvisit, Option.map_some, Option.map_eq_some_iff] at hsight
  obtain ⟨visit', hvisit', hsame⟩ := hsight
  rw [← Visit.out_congr_sight hsame]
  exact (perm_trail hrun').mem_iff.2 (List.mem_map_of_mem (List.mem_of_getElem? hvisit'))

/-- A pass looks ahead by one line of the structure. Over documents that agree up to the line at
`index` and on the next line of the structure, passes do the same with each line up to there, know
the same after it, and write the same for these lines or break off at the same one. -/
theorem one_line_lookahead {index : Nat} {lines lines' : List RawLine}
    (h : AgreeThrough index lines lines') :
    (∀ i ≤ index, treatmentAt? registry lines' i = treatmentAt? registry lines i) ∧
      stateAfter registry (index + 1) lines' = stateAfter registry (index + 1) lines ∧
      (∀ pass pass', runLines registry lines = .ok pass → runLines registry lines' = .ok pass' →
        ∀ out : OutLine, out.number ≤ index + 1 → (out ∈ pass'.lines ↔ out ∈ pass.lines)) ∧
      ∀ i ≤ index, ∀ failure, treatmentAt? registry lines i = some (.broken failure) →
        runLines registry lines = .error failure ∧
          runLines registry lines' = .error failure := by
  refine ⟨fun i hi => h.treatmentAt?_eq hi, h.stateAfter_eq, ?_, ?_⟩
  · intro pass pass' hrun hrun' out hnumber
    exact ⟨h.symm.mem_lines hrun' hrun hnumber, h.mem_lines hrun hrun' hnumber⟩
  · intro i hi failure hbroken
    exact ⟨runLines_of_broken hbroken,
      runLines_of_broken ((h.treatmentAt?_eq hi).trans hbroken)⟩

/-- A task with an attribute below its tags, the next task behind a blank line, and `rest`. -/
def strayAttribute (rest : List RawLine) : List RawLine :=
  Text.splitLines "- name: a\n  tags:\n    - x\n    register: y\n".toList ++
    ([⟨[], .lf⟩] ++ ⟨"- name: b".toList, .lf⟩ :: rest)

def followingTask : List RawLine :=
  Text.splitLines "  debug:\n  msg: z\n".toList

/-- The attribute, back in its task. -/
def liftedAttribute : OutLine :=
  { body := "  register: y".toList, ending := .lf, number := 4, moved := true, trivia := false }

theorem one_line_lookahead_strayAttribute :
    AgreeThrough 3 (strayAttribute []) (strayAttribute followingTask) ∧
      treatmentAt? .standard (strayAttribute []) 3 = some (.relocated liftedAttribute) ∧
      treatmentAt? .standard (strayAttribute followingTask) 3 = some (.relocated liftedAttribute) ∧
      ∃ pass pass', runLines .standard (strayAttribute []) = .ok pass ∧
        runLines .standard (strayAttribute followingTask) = .ok pass' ∧
        liftedAttribute ∈ pass.lines ∧ liftedAttribute ∈ pass'.lines := by
  have hagree : AgreeThrough 3 (strayAttribute []) (strayAttribute followingTask) :=
    agreeThrough_of_next (by decide +kernel) (by decide +kernel)
  have hrelocated :
      treatmentAt? .standard (strayAttribute []) 3 = some (.relocated liftedAttribute) := by
    decide +kernel
  have hwritten : (runLines .standard (strayAttribute [])).toOption.any
      (fun pass => pass.lines.contains liftedAttribute) = true := by decide +kernel
  have hok : (runLines .standard (strayAttribute followingTask)).toOption.isSome = true := by
    decide +kernel
  obtain ⟨htreatment, _, hlines, _⟩ := @one_line_lookahead .standard 3 _ _ hagree
  refine ⟨hagree, hrelocated, (htreatment 3 (Nat.le_refl 3)).trans hrelocated, ?_⟩
  cases hrun : runLines .standard (strayAttribute []) with
  | error failure =>
    rw [hrun] at hwritten
    cases hwritten
  | ok pass =>
    cases hrun' : runLines .standard (strayAttribute followingTask) with
    | error failure =>
      rw [hrun'] at hok
      cases hok
    | ok pass' =>
      have hmem : liftedAttribute ∈ pass.lines := by
        rw [hrun] at hwritten
        exact List.contains_iff_mem.1 hwritten
      exact ⟨pass, pass', rfl, rfl, hmem,
        (hlines pass pass' hrun hrun' liftedAttribute (Nat.le_refl 4)).2 hmem⟩

end Pass
end Reindent
