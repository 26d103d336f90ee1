import Reindent.Proofs.Document.Idempotence
import Reindent.Proofs.Pass.Marker

/-!
# Reindent.Proofs.Document.Marker

What a second repair does to a document that a repair has given a marker.

* `lacksMarker_eq`       — a document lacks the marker by its contents alone.
* `splitLines_marker`    — the marker stands above the document as it would be without.
* `keeps_below_marker`   — where the first line below it that takes part in the structure stands at
  the left edge, the lines below the marker stay where they are.
* `idempotent_marked_iff` — a second repair leaves the document as it is exactly if a pass does.
* `not_idempotent_marked` — below the marker, an item no longer owns its attributes.
-/

namespace Reindent

/-! ### Documents that lack the marker -/

namespace Draft

/-- A line of the contents that is not a comment. -/
def isContent : Text → Bool
  | [] => false
  | '#' :: _ => false
  | _ => true

theorem lacksMarker_eq (lines : List OutLine) :
    lacksMarker lines = ((OutLine.contents lines).find? isContent).any fun first =>
      !(marker.body.isPrefixOf first) && !(['%'].isPrefixOf first) := by
  have hcontent : hasContent = isContent ∘ fun line : OutLine => Text.trim line.body := rfl
  have hnonempty : (fun t : Text => decide ((!t.isEmpty) = true ∧ isContent t = true)) =
      isContent := by
    funext t
    cases t <;> simp [isContent]
  rw [lacksMarker, OutLine.contents, List.find?_filter, hnonempty, hcontent, List.find?_map,
    Option.any_map]

theorem lacksMarker_addMarker (draft : Draft) : lacksMarker draft.addMarker.lines = false := by
  unfold addMarker
  split
  · have hmarker : hasContent marker = true := by decide
    simp only [lacksMarker, List.find?_cons_of_pos hmarker]
    decide
  · rename_i hlacks
    simpa using hlacks

end Draft

namespace Engine

variable {engine : Engine} {text : Text} {repaired : Repair}

/-- A second repair has no marker to add. -/
theorem lacksMarker_of_repair (h : engine.repair text = .ok repaired)
    (hoption : engine.ensureDocumentStart = true) {pass : Pass}
    (hrun : Pass.run engine.registry repaired.text = .ok pass)
    (hsettled : pass.text repaired.text = repaired.text) :
    Draft.lacksMarker pass.lines = false := by
  obtain ⟨settled, _, hcontents, _⟩ := contents_of_repair h
  have hpass : repaired.text.contents = OutLine.contents pass.lines := by
    rw [← OutLine.contents_joinLines repaired.text (Pass.feed_not_mem_run hrun)]
    exact congrArg Text.contents hsettled.symm
  rw [hoption, if_pos rfl] at hcontents
  rw [Draft.lacksMarker_eq, ← hpass, hcontents, ← Draft.lacksMarker_eq,
    Draft.lacksMarker_addMarker]

theorem leaves_repaired_iff (h : engine.repair text = .ok repaired)
    (hoption : engine.ensureDocumentStart = true) :
    engine.Leaves repaired.text ↔ Settled engine.registry repaired.text := by
  constructor
  · exact settled_of_leaves
  · rintro ⟨pass, hrun, hsettled⟩
    exact leaves_of_settled hrun hsettled fun _ => lacksMarker_of_repair h hoption hrun hsettled

end Engine

/-! ### Below the marker -/

/-- Of the lines after the first one, the first that takes part in the structure. -/
def Text.below? (t : Text) : Option Line :=
  InputLine.nextStructural? (InputLine.ofLines 1 t.splitLines.tail)

theorem splitLines_marker (model : Text) {lines : List RawLine} (hne : lines ≠ []) :
    ∃ ending, (joinLines model (Draft.marker.toRawLine :: lines)).splitLines =
      ⟨Draft.marker.body, ending⟩ :: (joinLines model lines).splitLines := by
  obtain ⟨first, rest, rfl⟩ := List.exists_cons_of_ne_nil hne
  have hjoined : joinLines model (Draft.marker.toRawLine :: first :: rest) =
      RawLine.text ⟨Draft.marker.body, model.commonEnding⟩ ++ joinLines model (first :: rest) := rfl
  have hfeed : '\n' ∉ Draft.marker.body := by decide
  have hending := model.commonEnding_ne_missing
  refine ⟨model.commonEnding, ?_⟩
  rw [hjoined]
  generalize model.commonEnding = ending at hending
  rw [@Text.splitLines_text_append ⟨Draft.marker.body, ending⟩ hfeed hending]
  cases ending with
  | missing => exact absurd rfl hending
  | lf | crlf => rfl

theorem Pass.keeps_below_marker {registry : Registry} {below marked : Text} {pass : Pass}
    {ending : Ending} (h : Pass.run registry below = .ok pass) (hkeeps : pass.Keeps below)
    (hmarked : marked.splitLines = ⟨Draft.marker.body, ending⟩ :: below.splitLines)
    (hleft : ∀ line, marked.below? = some line → line.indent = 0) :
    ∃ pass', Pass.run registry marked = .ok pass' ∧ pass'.Keeps marked := by
  have hbare : ∀ lines : List RawLine,
      (lines.map RawLine.bare).map RawLine.bare = lines.map RawLine.bare := by
    intro lines
    rw [List.map_map]
    exact List.map_congr_left fun line _ => line.bare_bare
  rw [Text.below?, hmarked, List.tail_cons] at hleft
  obtain ⟨bare, hrun, hlines⟩ := runLines_marker h hleft
  have hsame : marked.splitLines.map RawLine.bare =
      (⟨Draft.marker.body, .missing⟩ :: below.splitLines.map RawLine.bare).map RawLine.bare := by
    rw [hmarked, List.map_cons, List.map_cons, hbare]
    rfl
  obtain ⟨pass', hrun', hpass⟩ := runLines_of_bare hrun hsame
  refine ⟨pass', hrun', keeps_iff.2 ?_⟩
  have hbelow : (pass.lines.map (OutLine.bare 1)).map OutLine.toRawLine =
      pass.rawLines.map RawLine.bare := by
    rw [rawLines, List.map_map, List.map_map]
    rfl
  rw [bare_rawLines_congr hpass, hsame, rawLines, hlines, List.map_cons, List.map_cons, hbelow,
    keeps_iff.1 hkeeps]
  rfl

namespace Engine

variable {engine : Engine} {text : Text} {repaired : Repair}

theorem keeps_of_marked (h : engine.repair text = .ok repaired)
    (hmarked : repaired.stats.documentStart = true)
    (hleft : ∀ line, repaired.text.below? = some line → line.indent = 0) :
    ∃ pass, Pass.run engine.registry repaired.text = .ok pass ∧ pass.Keeps repaired.text := by
  obtain ⟨k, course, hcount, htext, hne⟩ := course_of_repair h
  obtain ⟨pass, hrun, hkeeps⟩ := course.keeps_result hcount
  obtain ⟨ending, hsplit⟩ := splitLines_marker text (hne hmarked)
  rw [hmarked, if_pos rfl, List.singleton_append] at htext
  rw [← htext] at hsplit
  exact Pass.keeps_below_marker hrun hkeeps hsplit hleft

/-- With the marker, a second repair leaves a repaired document as it is exactly if a pass keeps
every line and its end. The marker does not move the lines below it if the first of them that takes
part in the structure stands at the left edge. -/
theorem idempotent_marked_iff (registry : Registry) (text : Text) (repaired : Repair)
    (h : repair { registry, ensureDocumentStart := true } text = .ok repaired) :
    (Leaves { registry, ensureDocumentStart := true } repaired.text ↔
      ∃ pass, Pass.run registry repaired.text = .ok pass ∧ pass.Keeps repaired.text ∧
        (pass.text repaired.text).terminators = repaired.text.terminators) ∧
    ((repaired.stats.documentStart = true →
        ∀ line, repaired.text.below? = some line → line.indent = 0) →
      (∃ pass, Pass.run registry repaired.text = .ok pass ∧ pass.Keeps repaired.text) ∧
        ('\r' ∉ text → Leaves { registry, ensureDocumentStart := true } repaired.text)) := by
  have hleaves := leaves_repaired_iff h rfl
  constructor
  · rw [hleaves]
    constructor
    · rintro ⟨pass, hrun, hsettled⟩
      have hkeeps := Pass.keeps_of_text_eq hrun hsettled
      exact ⟨pass, hrun, hkeeps, (Pass.text_eq_iff hrun hkeeps).1 hsettled⟩
    · rintro ⟨pass, hrun, hkeeps, hends⟩
      exact ⟨pass, hrun, (Pass.text_eq_iff hrun hkeeps).2 hends⟩
  · intro hleft
    have hpass : ∃ pass, Pass.run registry repaired.text = .ok pass ∧ pass.Keeps repaired.text := by
      cases hmarked : repaired.stats.documentStart with
      | true => exact keeps_of_marked h hmarked (hleft hmarked)
      | false => exact keeps_of_repair h hmarked
    refine ⟨hpass, fun htext => ?_⟩
    obtain ⟨pass, hrun, hkeeps⟩ := hpass
    rw [hleaves]
    exact ⟨pass, hrun, Pass.text_eq_of_keeps hrun hkeeps (return_not_mem_repair h htext)⟩

theorem idempotent_marked_nudged :
    ∃ repaired, repair { ensureDocumentStart := true } nudged = .ok repaired ∧
      repaired.stats.documentStart = true ∧
        Leaves { ensureDocumentStart := true } repaired.text := by
  have hok : (repair { ensureDocumentStart := true } nudged).toOption.any (fun repaired =>
      repaired.stats.documentStart && repaired.text.below?.all fun line => line.indent == 0) =
        true := by decide +kernel
  cases hrepair : repair { ensureDocumentStart := true } nudged with
  | error failure => simp [hrepair, Except.toOption] at hok
  | ok repaired =>
    simp only [hrepair, Except.toOption, Option.any_some, Bool.and_eq_true] at hok
    obtain ⟨hmarked, hleft⟩ := hok
    obtain ⟨_, hleaves⟩ := (idempotent_marked_iff Registry.standard nudged repaired hrepair).2
      (fun _ line hline => by simpa [hline] using hleft)
    exact ⟨repaired, rfl, hmarked, hleaves (by decide +kernel)⟩

/-- A list of tasks that stands right of the left edge. The task sets `register` twice. -/
def indented : Text :=
  "  - name: t\n    register: a\n    tags:\n      - foo\n      register: b\n".toList

theorem not_idempotent_marked :
    ∃ repaired again, repair { ensureDocumentStart := true } indented = .ok repaired ∧
      repair { ensureDocumentStart := true } repaired.text = .ok again ∧
        again.changed = true ∧ again.text ≠ repaired.text := by
  have hagain : changesAgain { ensureDocumentStart := true } indented = true := by decide +kernel
  exact exists_of_changesAgain hagain

end Engine
end Reindent
