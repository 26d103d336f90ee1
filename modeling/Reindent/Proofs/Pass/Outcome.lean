import Reindent.Pass.Run

/-!
# Reindent.Proofs.Pass.Outcome

A pass that succeeds, taken apart.

* `steps_cons_ok` — the first line, then the others.
* `runLines_ok`   — all lines, then the end of the document.
-/

namespace Reindent
namespace Pass

theorem steps_cons_ok {registry : Registry} {input : InputLine} {rest : List InputLine}
    {state state' : State} (h : steps registry state (input :: rest) = .ok state') :
    ∃ next, state.step registry input rest = .ok next ∧ steps registry next rest = .ok state' := by
  simp only [steps] at h
  split at h
  · rename_i next hstep
    exact ⟨next, hstep, h⟩
  · cases h

theorem finish_eq_unwind {state final : State} (h : finish state = .ok final) :
    final = unwind state := by
  simp only [finish] at h
  split at h
  · cases h
  · split at h
    · cases h
    · cases h
      rfl

theorem collect_ok {count : Nat} {state : State} {pass : Pass}
    (h : collect count state = .ok pass) :
    state.written.length = count ∧ pass.lines = state.written.reverse ∧ pass.inputLines = count ∧
      pass.stats = state.stats ∧ pass.events = state.events.reverse := by
  simp only [collect] at h
  split at h
  · cases h
  · rename_i hcount
    cases h
    exact ⟨Decidable.not_not.1 hcount, rfl, rfl, rfl, rfl⟩

/-- A pass that succeeds has stepped through all lines and unwound. -/
theorem runLines_ok {registry : Registry} {lines : List RawLine} {pass : Pass}
    (h : runLines registry lines = .ok pass) :
    ∃ state, steps registry {} (InputLine.ofLines 1 lines) = .ok state ∧
      finish state = .ok (unwind state) ∧ collect lines.length (unwind state) = .ok pass := by
  simp only [runLines] at h
  split at h
  · cases h
  · rename_i state hsteps
    split at h
    · cases h
    · rename_i final hfinish
      have hfinal := finish_eq_unwind hfinish
      subst hfinal
      exact ⟨state, hsteps, hfinish, h⟩

end Pass
end Reindent
