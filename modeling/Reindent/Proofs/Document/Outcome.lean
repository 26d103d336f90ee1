import Reindent.Document
import Reindent.Proofs.Pass.Outcome

/-!
# Reindent.Proofs.Document.Outcome

A repair that succeeds, taken apart.

* `Draft.settle_ok`   — the last pass leaves the draft as it is; any other one advances it.
* `Engine.repair_ok`  — the first pass, the passes until the draft is settled, and the marker.
* `Draft.lines_finished` — the lines of the draft that is collected in the end.
-/

namespace Reindent
namespace Draft

theorem settle_ok {registry : Registry} {remaining : Nat} {draft settled : Draft}
    (h : draft.settle registry remaining = .ok settled) :
    ∃ pass, Pass.run registry draft.body = .ok pass ∧
      ((pass.text draft.body = draft.body ∧
          settled = { draft with events := draft.events ++ pass.events }) ∨
        (pass.text draft.body ≠ draft.body ∧ ∃ left, remaining = left + 1 ∧
          (draft.advance (maxPasses - left) pass).settle registry left = .ok settled)) := by
  rw [settle] at h
  split at h
  · cases h
  · rename_i pass hpass
    refine ⟨pass, hpass, ?_⟩
    by_cases hsame : pass.text draft.body = draft.body
    · rw [if_pos hsame] at h
      cases h
      exact .inl ⟨hsame, rfl⟩
    · rw [if_neg hsame] at h
      cases remaining with
      | zero => cases h
      | succ left => exact .inr ⟨hsame, left, rfl, h⟩

theorem lines_addMarker {draft : Draft} (hunmarked : draft.stats.documentStart = false) :
    draft.addMarker.lines =
        (if draft.addMarker.stats.documentStart then [marker] else []) ++ draft.lines ∧
      (draft.addMarker.stats.documentStart = true → draft.lines ≠ []) := by
  unfold addMarker
  by_cases hlacks : lacksMarker draft.lines = true
  · rw [if_pos hlacks]
    refine ⟨rfl, fun _ hnil => ?_⟩
    rw [hnil] at hlacks
    cases hlacks
  · rw [if_neg hlacks, hunmarked]
    exact ⟨rfl, fun hmarked => absurd hmarked Bool.false_ne_true⟩

theorem lines_finished {ensureDocumentStart : Bool} {draft finished : Draft}
    (hfinished : (if ensureDocumentStart then draft.addMarker else draft) = finished)
    (hunmarked : draft.stats.documentStart = false) :
    finished.lines = (if finished.stats.documentStart then [marker] else []) ++ draft.lines ∧
      (finished.stats.documentStart = true → draft.lines ≠ []) := by
  subst hfinished
  cases ensureDocumentStart with
  | false =>
    rw [if_neg Bool.false_ne_true, hunmarked]
    exact ⟨rfl, fun hmarked => absurd hmarked Bool.false_ne_true⟩
  | true => exact lines_addMarker hunmarked

theorem settle_of_settled {registry : Registry} {draft : Draft} {pass : Pass}
    (hrun : Pass.run registry draft.body = .ok pass)
    (hsettled : pass.text draft.body = draft.body) (remaining : Nat) :
    draft.settle registry remaining = .ok { draft with events := draft.events ++ pass.events } := by
  unfold settle
  simp only [hrun]
  exact if_pos hsettled

end Draft

namespace Engine

theorem collect_ok {text : Text} {count : Nat} {draft : Draft} {repair : Repair}
    (h : collect text count draft = .ok repair) :
    draft.lines.length = count + (if draft.stats.documentStart then 1 else 0) ∧
      repair.text = joinLines text (draft.lines.map OutLine.toRawLine) ∧
      repair.changed = (repair.text != text) ∧ repair.stats = draft.stats := by
  unfold collect at h
  by_cases hcount : draft.lines.length = count + (if draft.stats.documentStart then 1 else 0)
  · rw [if_neg (not_not_intro hcount)] at h
    cases h
    exact ⟨hcount, rfl, rfl, rfl⟩
  · rw [if_pos hcount] at h
    cases h

theorem collect_error {text : Text} {count : Nat} {draft : Draft} {failure : Pass.Failure}
    (h : collect text count draft = .error failure) :
    draft.lines.length ≠ count + (if draft.stats.documentStart then 1 else 0) ∧
      failure.fault =
        .lineCountMismatch (count + if draft.stats.documentStart then 1 else 0)
          draft.lines.length := by
  unfold collect at h
  by_cases hcount : draft.lines.length = count + (if draft.stats.documentStart then 1 else 0)
  · rw [if_neg (not_not_intro hcount)] at h
    cases h
  · rw [if_pos hcount] at h
    cases h
    exact ⟨hcount, rfl⟩

/-- A repair that succeeds has settled, and may have added the marker. -/
theorem repair_ok {engine : Engine} {text : Text} {repair : Repair}
    (h : engine.repair text = .ok repair) :
    ∃ pass settled, Pass.run engine.registry text = .ok pass ∧
      (Draft.ofPass pass text).settle engine.registry (maxPasses - 1) = .ok settled ∧
      collect text pass.inputLines
        (if engine.ensureDocumentStart then settled.addMarker else settled) = .ok repair := by
  simp only [Engine.repair] at h
  split at h
  · cases h
  · rename_i pass hpass
    split at h
    · cases h
    · rename_i settled hsettled
      exact ⟨pass, settled, hpass, hsettled, h⟩

end Engine
end Reindent
