import Reindent.Proofs.Document.Back
import Reindent.Proofs.Document.Contents

/-!
# Reindent.Proofs.Document.Leaves

Repairs that leave the document as it is.

* `course_of_repair`  — the passes behind a repair, and the lines that it joins in the end.
* `settled_of_leaves` — if a repair leaves the document as it is, a single pass does, however many
  passes the repair has taken.
* `leaves_of_settled` — if a pass does, and no marker is missing, so does a repair.
-/

namespace Reindent
namespace Engine

/-- A repair leaves the document as it is. -/
def Leaves (engine : Engine) (text : Text) : Prop :=
  ∃ repaired, engine.repair text = .ok repaired ∧ repaired.text = text ∧ repaired.changed = false

variable {engine : Engine} {text : Text} {repaired : Repair}

theorem unmarked_of_repair (h : engine.repair text = .ok repaired)
    (hoption : engine.ensureDocumentStart = false) : repaired.stats.documentStart = false := by
  obtain ⟨settled, hkeeps, _, hstats⟩ := contents_of_repair h
  rw [hstats, hoption]
  exact hkeeps.unmarked

/-- The course behind a repair. The marker, if one is added, is put above the lines it ends with. -/
theorem course_of_repair (h : engine.repair text = .ok repaired) :
    ∃ k, ∃ course : Course engine.registry text k,
      (course.passes k).rawLines.length = text.splitLines.length ∧
        repaired.text = joinLines text
          ((if repaired.stats.documentStart then [Draft.marker.toRawLine] else []) ++
            (course.passes k).rawLines) ∧
        (repaired.stats.documentStart = true → (course.passes k).rawLines ≠ []) := by
  obtain ⟨pass, settled, hpass, hsettled, hcollect⟩ := repair_ok h
  obtain ⟨hlength, htext, _, hstats⟩ := collect_ok hcollect
  obtain ⟨k, course, hlines⟩ := settle_course hpass rfl rfl hsettled
  have hunmarked : settled.stats.documentStart = false :=
    ((Draft.keeps_ofPass hpass).settle hsettled).unmarked
  generalize hdraft : (if engine.ensureDocumentStart then settled.addMarker else settled) = draft
    at hlength htext hstats
  obtain ⟨hadded, hne⟩ := Draft.lines_finished hdraft hunmarked
  rw [hadded, hlines] at hlength htext
  rw [hlines] at hne
  refine ⟨k, course, ?_, ?_, ?_⟩
  · rw [List.length_append, Pass.inputLines_run hpass] at hlength
    rw [Pass.rawLines, List.length_map]
    split at hlength <;> simp at hlength <;> omega
  · rw [htext, hstats, List.map_append, Pass.rawLines]
    split <;> rfl
  · intro hmarked hnil
    rw [Pass.rawLines, List.map_eq_nil_iff] at hnil
    rw [hstats] at hmarked
    exact hne hmarked hnil

theorem course_of_unmarked (h : engine.repair text = .ok repaired)
    (hunmarked : repaired.stats.documentStart = false) :
    ∃ k, ∃ course : Course engine.registry text k,
      (course.passes k).rawLines.length = text.splitLines.length ∧
        repaired.text = joinLines text (course.passes k).rawLines := by
  obtain ⟨k, course, hcount, htext, _⟩ := course_of_repair h
  rw [hunmarked] at htext
  exact ⟨k, course, hcount, htext⟩

/-- A repair that gives the document back adds no marker, since that would be one line more. -/
theorem unmarked_of_text_eq (h : engine.repair text = .ok repaired) (hsame : repaired.text = text) :
    repaired.stats.documentStart = false := by
  obtain ⟨settled, hkeeps, hcontents, hstats⟩ := contents_of_repair h
  rw [hsame] at hcontents
  cases hoption : engine.ensureDocumentStart with
  | false => exact unmarked_of_repair h hoption
  | true =>
    rw [hoption, if_pos rfl] at hcontents hstats
    rw [hstats]
    cases hmarked : settled.addMarker.stats.documentStart with
    | false => rfl
    | true =>
      rw [Draft.contents_addMarker hkeeps.unmarked, hmarked, if_pos rfl] at hcontents
      have hlength := congrArg List.length hcontents
      rw [List.length_append, hkeeps.lines.length_eq] at hlength
      simp at hlength

theorem settled_of_leaves (h : engine.Leaves text) : Settled engine.registry text := by
  obtain ⟨repaired, hrepair, hsame, _⟩ := h
  -- The repair may have taken several passes, which together lead back to the document.
  obtain ⟨k, course, hcount, hresult⟩ :=
    course_of_unmarked hrepair (unmarked_of_text_eq hrepair hsame)
  exact course.settled_of_back hcount (hresult.symm.trans hsame)

theorem repair_of_settled {pass : Pass} (hrun : Pass.run engine.registry text = .ok pass)
    (hsettled : pass.text text = text) :
    ∃ draft : Draft, draft.lines = pass.lines ∧ draft.stats = pass.stats ∧
      engine.repair text = collect text pass.inputLines
        (if engine.ensureDocumentStart then draft.addMarker else draft) := by
  have hbody : (Draft.ofPass pass text).body = text := hsettled
  have hagain : Pass.run engine.registry (Draft.ofPass pass text).body = .ok pass := by
    rw [hbody, hrun]
  have hsame : pass.text (Draft.ofPass pass text).body = (Draft.ofPass pass text).body := by
    rw [hbody, hsettled]
  have hsettle := Draft.settle_of_settled hagain hsame (maxPasses - 1)
  refine ⟨{ Draft.ofPass pass text with
    events := (Draft.ofPass pass text).events ++ pass.events }, rfl, rfl, ?_⟩
  simp only [Engine.repair, hrun, hsettle]

theorem leaves_of_collect {pass : Pass} {draft : Draft}
    (hrun : Pass.run engine.registry text = .ok pass) (hsettled : pass.text text = text)
    (hlines : draft.lines = pass.lines) (hunmarked : draft.stats.documentStart = false)
    (h : engine.repair text = collect text pass.inputLines draft) : engine.Leaves text := by
  have hcount : draft.lines.length =
      pass.inputLines + if draft.stats.documentStart then 1 else 0 := by
    rw [hlines, hunmarked, Pass.length_lines_run hrun, Pass.inputLines_run hrun]
    rfl
  have hresult : joinLines text (draft.lines.map OutLine.toRawLine) = text := by
    rw [hlines]
    exact hsettled
  have hcollect : collect text pass.inputLines draft = .ok
      { text, changed := text != text, stats := draft.stats, events := draft.events } := by
    unfold collect
    rw [if_neg (not_not_intro hcount), hresult]
  refine ⟨_, h.trans hcollect, rfl, ?_⟩
  exact bne_self_eq_false text

theorem leaves_of_settled {pass : Pass} (hrun : Pass.run engine.registry text = .ok pass)
    (hsettled : pass.text text = text)
    (hmarked : engine.ensureDocumentStart = true → Draft.lacksMarker pass.lines = false) :
    engine.Leaves text := by
  obtain ⟨draft, hlines, hstats, hrepair⟩ := repair_of_settled hrun hsettled
  have hunmarked : draft.stats.documentStart = false := by
    rw [hstats, Pass.documentStart_runLines hrun]
  have hdraft : (if engine.ensureDocumentStart then draft.addMarker else draft) = draft := by
    split
    · rename_i hoption
      rw [Draft.addMarker, hlines, hmarked hoption]
      rfl
    · rfl
  rw [hdraft] at hrepair
  exact leaves_of_collect hrun hsettled hlines hunmarked hrepair

theorem leaves_iff_settled (registry : Registry) (text : Text) :
    Leaves { registry } text ↔ Settled registry text := by
  constructor
  · exact settled_of_leaves
  · rintro ⟨pass, hrun, hsettled⟩
    have hrun' : Pass.run (Engine.registry { registry }) text = .ok pass := hrun
    exact leaves_of_settled hrun' hsettled (fun hoption => absurd hoption Bool.false_ne_true)

end Engine
end Reindent
