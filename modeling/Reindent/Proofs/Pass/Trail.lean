import Reindent.Proofs.Pass.Conservation

/-!
# Reindent.Proofs.Pass.Trail

Where the lines of a pass are written.

* `below_of_trail`, `step_of_trail` — from a visit to those below it, and to the next one.
* `columnOf?`  — the column that a line of the input is written at.
* `columnOf?_visit` — a line that takes part in the structure is written at the column of its
  place, unless it is lifted out.
-/

namespace Reindent
namespace Pass

/-- The column that the line with the given number is written at. -/
def columnOf? (pass : Pass) (number : Nat) : Option Nat :=
  (pass.lines.find? fun line => line.number == number).map fun line => line.body.indent

/-! ### Steps of a trail -/

variable {registry : Registry}

/-- What comes below a line in a trail: the trail from the state that the line leads to, or nothing
if the pass breaks off there. -/
theorem below_of_trail {inputs : List InputLine} {state : State} {before after : List Visit}
    {visit : Visit} (h : trail registry state inputs = before ++ visit :: after) :
    after =
      match visit.state.step registry visit.input visit.rest with
      | .ok next => trail registry next visit.rest
      | .error _ => [] := by
  induction before generalizing state inputs with
  | nil =>
    cases inputs with
    | nil => cases h
    | cons input rest =>
      simp only [trail, List.nil_append, List.cons.injEq] at h
      obtain ⟨rfl, hbelow⟩ := h
      exact hbelow.symm
  | cons first before ih =>
    cases inputs with
    | nil => cases h
    | cons input rest =>
      simp only [trail, List.cons_append, List.cons.injEq] at h
      obtain ⟨_, hbelow⟩ := h
      split at hbelow
      · exact ih hbelow
      · cases before <;> cases hbelow

theorem step_of_trail {inputs : List InputLine} {state : State} {before after : List Visit}
    {visit next : Visit} (h : trail registry state inputs = before ++ visit :: next :: after) :
    visit.state.step registry visit.input visit.rest = .ok next.state := by
  have hbelow := below_of_trail h
  cases hstep : visit.state.step registry visit.input visit.rest with
  | error failure =>
    rw [hstep] at hbelow
    cases hbelow
  | ok stepped =>
    rw [hstep] at hbelow
    cases hrest : visit.rest with
    | nil =>
      rw [hrest] at hbelow
      cases hbelow
    | cons below rest =>
      rw [hrest] at hbelow
      simp only [trail, List.cons.injEq] at hbelow
      rw [hbelow.1]

/-! ### Columns of the output -/

theorem map_number_of_writes {outs : List OutLine} {inputs : List InputLine}
    (h : List.Forall₂ OutLine.Writes outs inputs) :
    outs.map OutLine.number = inputs.map InputLine.number := by
  induction h with
  | nil => rfl
  | cons hwrites _ ih => simp only [List.map_cons, hwrites.number, ih]

/-- Every line of the document is in the output, once. -/
theorem perm_number_runLines {registry : Registry} {lines : List RawLine} {pass : Pass}
    (h : runLines registry lines = .ok pass) :
    (pass.lines.map OutLine.number).Perm (List.range' 1 lines.length) := by
  obtain ⟨outs, houts, hperm⟩ := runLines_writes h
  rw [← InputLine.map_number_ofLines, ← map_number_of_writes houts]
  exact hperm.map OutLine.number

theorem nodup_number_run {registry : Registry} {text : Text} {pass : Pass}
    (h : run registry text = .ok pass) : (pass.lines.map OutLine.number).Nodup :=
  (perm_number_runLines h).nodup_iff.2 List.nodup_range'

theorem filter_number_of_mem {lines : List OutLine} {out : OutLine}
    (hnodup : (lines.map OutLine.number).Nodup) (hout : out ∈ lines) :
    lines.filter (fun line => line.number == out.number) = [out] := by
  induction lines with
  | nil => cases hout
  | cons first rest ih =>
    rw [List.map_cons, List.nodup_cons] at hnodup
    rcases List.mem_cons.1 hout with rfl | hrest
    · rw [List.filter_cons_of_pos (by simp), List.cons.injEq, List.filter_eq_nil_iff]
      refine ⟨rfl, fun line hline hsame => hnodup.1 ?_⟩
      rw [← beq_iff_eq.1 hsame]
      exact List.mem_map_of_mem hline
    · have hne : first.number ≠ out.number := by
        intro heq
        exact hnodup.1 (heq ▸ List.mem_map_of_mem hrest)
      rw [List.filter_cons_of_neg (by simpa using hne), ih hnodup.2 hrest]

theorem columnOf?_of_mem {pass : Pass} {out : OutLine}
    (hnodup : (pass.lines.map OutLine.number).Nodup)
    (hout : out ∈ pass.lines) : pass.columnOf? out.number = some out.body.indent := by
  rw [columnOf?, ← List.head?_filter, filter_number_of_mem hnodup hout]
  rfl

theorem input_of_mem_trail {inputs : List InputLine} {state : State} {visit : Visit}
    (h : visit ∈ trail registry state inputs) : visit.input ∈ inputs := by
  induction inputs generalizing state with
  | nil => cases h
  | cons input rest ih =>
    simp only [trail, List.mem_cons] at h
    rcases h with rfl | h
    · exact List.mem_cons_self
    · split at h
      · exact List.mem_cons_of_mem _ (ih h)
      · cases h

theorem columnOf?_visit {registry : Registry} {text : Text} {pass : Pass} {visit : Visit}
    (h : run registry text = .ok pass) (hvisit : visit ∈ trailOf registry text)
    (hplaced : visit.isPlaced registry) :
    pass.columnOf? visit.input.number =
      some ((visit.placement registry).indent visit.input.line) := by
  have hread := InputLine.isRead_of_mem_ofLines (input_of_mem_trail hvisit)
  have hmem : visit.out registry ∈ pass.lines :=
    (perm_trail h).mem_iff.2 (List.mem_map_of_mem hvisit)
  have hcolumn := columnOf?_of_mem (nodup_number_run h) hmem
  rw [Visit.out_of_placed hplaced] at hcolumn
  rw [hcolumn, hread.indent_spaces_content]

end Pass
end Reindent
