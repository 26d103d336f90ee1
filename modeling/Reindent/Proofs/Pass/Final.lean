import Reindent.Proofs.Pass.Rearrangement

/-!
# Reindent.Proofs.Pass.Final

What is written for good.

* `stable_suffix` — no relocation is written above the last line that is no trivia.
* `suffix_unwind` — so the output starts with that line and the lines above it.
-/

namespace Reindent
namespace Pass

variable {registry : Registry} {above : List OutLine}

/-- Relocations are written below the last line that is no trivia. Lines that end with such a line
stay as they are. -/
theorem State.stable_suffix (h : ∀ line ∈ above.head?, line.trivia = false) :
    State.Stable fun state => above <:+ state.written := by
  have hdrop : above.dropWhile OutLine.trivia = above := by
    cases above with
    | nil => rfl
    | cons line above => exact List.dropWhile_cons_of_neg (by simp [h line rfl])
  refine ⟨?_, ?_⟩
  · rintro state waiting ⟨below, hwritten⟩
    have hrest : above <:+ state.written.dropWhile OutLine.trivia := by
      rw [← hwritten, List.dropWhile_append]
      split
      · exact ⟨[], by rw [List.nil_append, hdrop]⟩
      · exact List.suffix_append _ _
    exact hrest.trans (List.suffix_append _ _)
  · intro state state' hwritten _ hsuffix
    rw [hwritten]
    exact hsuffix

theorem Visit.suffix_step {visit : Visit} {next : State}
    (hlast : ∀ line ∈ above.head?, line.trivia = false) (hread : visit.input.line.IsRead)
    (h : above <:+ visit.state.written)
    (hstep : visit.state.step registry visit.input visit.rest = .ok next) :
    above <:+ next.written := by
  obtain ⟨before, hbefore, hwrites⟩ := step_of_stable (State.stable_suffix hlast) h hread hstep
  split at hwrites
  · rw [hwrites.1]
    exact hbefore
  · rw [hwrites.1]
    exact hbefore.trans (List.suffix_cons _ _)

theorem suffix_steps {inputs : List InputLine} {state final : State}
    (hlast : ∀ line ∈ above.head?, line.trivia = false)
    (hread : ∀ input ∈ inputs, input.line.IsRead) (h : above <:+ state.written)
    (hsteps : steps registry state inputs = .ok final) : above <:+ final.written := by
  induction inputs generalizing state with
  | nil =>
    cases hsteps
    exact h
  | cons input rest ih =>
    obtain ⟨next, hstep, hrest⟩ := steps_cons_ok hsteps
    obtain ⟨hinput, hinputs⟩ := List.forall_mem_cons.1 hread
    exact ih hinputs (@Visit.suffix_step registry above ⟨state, input, rest⟩ next hlast hinput h
      hstep) hrest

/-- A line that is no trivia is written for good, with all that is written above it. -/
theorem suffix_unwind {inputs : List InputLine} {state final : State}
    (hlast : ∀ line ∈ above.head?, line.trivia = false)
    (hread : ∀ input ∈ inputs, input.line.IsRead) (h : above <:+ state.written)
    (hsteps : steps registry state inputs = .ok final) : above <:+ (unwind final).written :=
  (State.stable_suffix hlast).unwind (suffix_steps hlast hread h hsteps)

end Pass
end Reindent
