import Reindent.Proofs.Document.Changes
import Reindent.Proofs.Document.Contents
import Reindent.Proofs.Pass.Nesting

/-!
# Reindent.Proofs.Document.FrameOrder

Where the lines inside a frame are written, and when a document is given up on for it.

* `Changes.contents` — passes keep the contents of a document.
* `frames_nest_iff`  — lines are written to the right of the frame around them unless they overhang;
  only a line that overhangs can break a pass off, and a repair with it; in a document without a
  dash alone on its line none does.
* `frames_do_not_nest` — an item below such a dash breaks off the repair of its document.
-/

namespace Reindent

variable {registry : Registry} {text doc : Text}

theorem Changes.contents {n : Nat} (h : Changes registry n text doc) :
    doc.contents.Perm text.contents := by
  induction h with
  | refl => exact .refl _
  | cons hrun _ _ ih => exact ih.trans (Pass.contents_text hrun)

theorem Pass.isFrameOrder_of_error {failure : Pass.Failure}
    (h : Pass.run registry text = .error failure) : failure.fault.IsFrameOrder := by
  rcases Pass.rearranges_or_frameOrder registry text with ⟨pass, hrun, _⟩ | ⟨failure', hrun, hfault⟩
  · rw [h] at hrun
    cases hrun
  · rw [h, Except.error.injEq] at hrun
    rw [hrun]
    exact hfault

namespace Engine

theorem exists_frameOrder_iff (engine : Engine) (text : Text) :
    (∃ failure, engine.repair text = .error failure ∧ failure.fault.IsFrameOrder) ↔
      ∃ n ≤ maxPasses, ∃ doc, Changes engine.registry n text doc ∧
        ∃ failure, Pass.run engine.registry doc = .error failure := by
  obtain ⟨result, houtcome, hrepair⟩ := exists_outcome engine text
  rw [hrepair]
  cases houtcome with
  | @broken n doc failure events hchanges hle hfails =>
    have hfault := Pass.isFrameOrder_of_error hfails
    exact iff_of_true ⟨_, rfl, hfault⟩ ⟨n, hle, doc, hchanges, failure, hfails⟩
  | @settled n doc pass draft hchanges hlt hpass hsettled _ _ _ =>
    refine iff_of_false ?_ ?_
    · rintro ⟨failure, hcollect, key, base, parent, parentBase, hfault⟩
      rw [(collect_error hcollect).2] at hfault
      cases hfault
    · rintro ⟨m, _, broken, hbroken, failure, hfails⟩
      -- The passes over the document end at one document, and that one is settled.
      obtain ⟨k, hlast, _⟩ := hchanges.exists_next hpass
      obtain ⟨_, hsame⟩ :=
        hbroken.eq_of_both_stop hlast (stops_of_error hfails) hsettled.stops
      obtain ⟨last, hrun, _⟩ := hsettled
      rw [hsame, hrun] at hfails
      cases hfails
  | @unstable doc pass events hchanges hpass hchanged =>
    refine iff_of_false ?_ ?_
    · rintro ⟨failure, hfailure, key, base, parent, parentBase, hfault⟩
      cases hfailure
      cases hfault
    · rintro ⟨m, hle, broken, hbroken, failure, hfails⟩
      obtain ⟨_, hsame⟩ := (hbroken.split hchanges hle).eq_of_stops (stops_of_error hfails)
      rw [hsame, hfails] at hpass
      cases hpass

/-- In every pass, a line inside a frame is written to the right of the frame's column unless it
overhangs. A pass breaks off exactly where a line that overhangs opens a frame at or left of the
column of the frame around it, and a repair is given up on for that exactly if one of its passes
breaks off. Documents without a dash alone on its line are never given up on for it. -/
theorem frames_nest_iff (registry : Registry) (text : Text) :
    (∀ visit ∈ Pass.trailOf registry text, visit.isPlaced registry = true →
      ∀ frame, visit.frame? registry = some frame → visit.placement registry ≠ .unchanged →
        (frame.baseIndent < visit.column registry ↔ ¬ visit.Overhangs frame)) ∧
    ((∃ failure, Pass.run registry text = .error failure) ↔
      ∃ visit ∈ Pass.trailOf registry text, ∃ frame parent,
        visit.Breaks registry frame parent ∧ visit.Overhangs parent) ∧
    ∀ ensureDocumentStart,
      ((∃ failure, repair { registry, ensureDocumentStart } text = .error failure ∧
          failure.fault.IsFrameOrder) ↔
        ∃ n ≤ maxPasses, ∃ doc, Changes registry n text doc ∧
          ∃ failure, Pass.run registry doc = .error failure) ∧
      (¬ Pass.HasBareDash text →
        ∀ failure, repair { registry, ensureDocumentStart } text = .error failure →
          ¬ failure.fault.IsFrameOrder) := by
  refine ⟨?_, Pass.exists_error_run_iff, fun ensureDocumentStart => ?_⟩
  · intro visit hvisit hplaced frame hframe hplacement
    exact Pass.baseIndent_lt_column_iff hvisit hplaced hframe hplacement
  · have hiff := exists_frameOrder_iff { registry, ensureDocumentStart } text
    refine ⟨hiff, ?_⟩
    intro hdash failure hrepair hfault
    obtain ⟨n, _, doc, hchanges, broken, hbroken⟩ := hiff.1 ⟨failure, hrepair, hfault⟩
    have hdoc : ¬ Pass.HasBareDash doc := fun hmem => hdash (hchanges.contents.subset hmem)
    obtain ⟨pass, hrun⟩ := @Pass.run_of_not_hasBareDash registry doc hdoc
    rw [hbroken] at hrun
    cases hrun

/-- A task list with a dash alone on its line, its key far to the right, and an item between the
two. -/
def overhanging : Text :=
  "  tasks:\n    -\n           name: x\n     - tags:\n".toList

/-- The frame of `tags:` would stand at the column of `tasks:`. -/
theorem frames_do_not_nest :
    ∃ failure, repair {} overhanging = .error failure ∧
      failure.fault = .frameOrder "tags".toList 2 "tasks".toList 2 := by
  have hfault : (match repair {} overhanging with
      | .error failure => failure.fault == .frameOrder "tags".toList 2 "tasks".toList 2
      | .ok _ => false) = true := by decide +kernel
  split at hfault
  · rename_i failure hrepair
    exact ⟨failure, hrepair, by simpa using hfault⟩
  · cases hfault

end Engine
end Reindent
