import Reindent.Proofs.Document.Outcome
import Reindent.Proofs.Text.Lines
import Reindent.Proofs.Pass.Conservation
import Reindent.Proofs.Pass.Stats

/-!
# Reindent.Proofs.Document.Contents

A repair keeps the contents of a document: its lines that are not blank, trimmed.

* `contents_lines_run` — a pass keeps them, in another order.
* `Draft.Keeps`        — what holds of a draft, however many passes it has been through.
* `contents_repair`    — a repair adds the document start marker that it reports, and nothing else.
-/

namespace Reindent

theorem Line.IsRead.trim_content {line : Line} (h : line.IsRead) (column : Nat) :
    Text.trim (Text.spaces column ++ line.content) = Text.trim line.text := by
  rw [Text.trim_spaces_append, ← h.spaces_append_content, Text.trim_spaces_append]

namespace OutLine

/-- What lines of the output add to the contents of a document. -/
def contents (lines : List OutLine) : List Text :=
  (lines.map fun line => Text.trim line.body).filter fun line => !line.isEmpty

theorem contents_perm {lines lines' : List OutLine} (h : lines.Perm lines') :
    (contents lines).Perm (contents lines') :=
  (h.map _).filter _

namespace Writes

variable {out : OutLine} {input : InputLine}

theorem trim_body (h : out.Writes input) (hread : input.line.IsRead) :
    Text.trim out.body = Text.trim input.line.text := by
  obtain ⟨column, hbody⟩ := h.body
  rw [hbody, hread.trim_content]

theorem map_trim {outs : List OutLine} {n : Nat} {lines : List RawLine}
    (h : List.Forall₂ Writes outs (InputLine.ofLines n lines)) :
    (outs.map fun line => Text.trim line.body) = (lines.map RawLine.body).map Text.trim := by
  induction lines generalizing n outs with
  | nil =>
    cases h
    rfl
  | cons raw rest ih =>
    cases h with
    | cons hhead htail =>
      have htrim := hhead.trim_body (Line.isRead_ofText raw.body)
      rw [Line.text_ofText] at htrim
      simp only [List.map_cons, htrim, ih htail]

end Writes
end OutLine

namespace Pass

variable {registry : Registry} {text : Text} {pass : Pass}

theorem contents_lines_run (h : run registry text = .ok pass) :
    (OutLine.contents pass.lines).Perm text.contents := by
  obtain ⟨outs, houts, hperm⟩ := runLines_writes h
  have hcontents : OutLine.contents outs = text.contents := by
    rw [OutLine.contents, OutLine.Writes.map_trim houts, Text.contents, Text.lines]
  rw [← hcontents]
  exact OutLine.contents_perm hperm

end Pass

/-- Joining lines of the output makes a document with their contents. -/
theorem OutLine.contents_joinLines (model : Text) {lines : List OutLine}
    (h : ∀ line ∈ lines, '\n' ∉ line.body) :
    (joinLines model (lines.map OutLine.toRawLine)).contents = contents lines := by
  have hraw : ∀ line ∈ lines.map OutLine.toRawLine, '\n' ∉ line.body := by
    intro raw hraw
    obtain ⟨line, hline, rfl⟩ := List.mem_map.1 hraw
    exact h line hline
  rw [Text.contents_joinLines model hraw, contents, List.map_map, List.map_map]
  rfl

/-- A pass keeps the contents of a document. -/
theorem Pass.contents_text {registry : Registry} {text : Text} {pass : Pass}
    (h : run registry text = .ok pass) : (pass.text text).contents.Perm text.contents := by
  rw [Pass.text, OutLine.contents_joinLines text (feed_not_mem_run h)]
  exact contents_lines_run h

namespace Draft

/-- The draft has the contents of `text`, as lines and as a document, and no marker yet. -/
structure Keeps (text : Text) (draft : Draft) : Prop where
  lines : (OutLine.contents draft.lines).Perm text.contents
  body : draft.body.contents.Perm text.contents
  feed : ∀ line ∈ draft.lines, '\n' ∉ line.body
  unmarked : draft.stats.documentStart = false

variable {registry : Registry} {text : Text} {pass : Pass} {draft : Draft}

theorem keeps_ofPass (h : Pass.run registry text = .ok pass) : (ofPass pass text).Keeps text := by
  exact ⟨Pass.contents_lines_run h, Pass.contents_text h, Pass.feed_not_mem_run h,
    Pass.documentStart_runLines h⟩

theorem Keeps.advance (hkeeps : draft.Keeps text) (h : Pass.run registry draft.body = .ok pass)
    (number : Nat) : (draft.advance number pass).Keeps text := by
  exact ⟨(Pass.contents_lines_run h).trans hkeeps.body, (Pass.contents_text h).trans hkeeps.body,
    Pass.feed_not_mem_run h, hkeeps.unmarked⟩

theorem Keeps.settle {remaining : Nat} {settled : Draft} (hkeeps : draft.Keeps text)
    (h : draft.settle registry remaining = .ok settled) : settled.Keeps text := by
  induction remaining generalizing draft with
  | zero =>
    obtain ⟨pass, _, ⟨_, rfl⟩ | ⟨_, left, hleft, _⟩⟩ := settle_ok h
    · exact ⟨hkeeps.lines, hkeeps.body, hkeeps.feed, hkeeps.unmarked⟩
    · cases hleft
  | succ remaining ih =>
    obtain ⟨pass, hpass, ⟨_, rfl⟩ | ⟨_, left, hleft, hrest⟩⟩ := settle_ok h
    · exact ⟨hkeeps.lines, hkeeps.body, hkeeps.feed, hkeeps.unmarked⟩
    · cases hleft
      exact ih (hkeeps.advance hpass _) hrest

theorem contents_marker : Text.trim marker.body = ['-', '-', '-'] := by decide

/-- The marker is reported where it is added. -/
theorem contents_addMarker (hunmarked : draft.stats.documentStart = false) :
    OutLine.contents draft.addMarker.lines =
      (if draft.addMarker.stats.documentStart then [['-', '-', '-']] else []) ++
        OutLine.contents draft.lines := by
  unfold addMarker
  split
  · simp [OutLine.contents, contents_marker]
  · simp [hunmarked]

theorem feed_not_mem_addMarker (hfeed : ∀ line ∈ draft.lines, '\n' ∉ line.body) :
    ∀ line ∈ draft.addMarker.lines, '\n' ∉ line.body := by
  unfold addMarker
  split
  · intro line hline
    rcases List.mem_cons.1 hline with rfl | hline
    · decide
    · exact hfeed line hline
  · exact hfeed

end Draft

namespace Engine

/-- The draft that a repair settled on, with the marker that it may have added. -/
theorem contents_of_repair {engine : Engine} {text : Text} {repair : Repair}
    (h : engine.repair text = .ok repair) :
    ∃ settled : Draft, settled.Keeps text ∧
      (let draft := if engine.ensureDocumentStart then settled.addMarker else settled
       repair.text.contents = OutLine.contents draft.lines ∧ repair.stats = draft.stats) := by
  obtain ⟨pass, settled, hpass, hsettled, hcollect⟩ := repair_ok h
  obtain ⟨_, htext, _, hstats⟩ := collect_ok hcollect
  have hkeeps : settled.Keeps text := (Draft.keeps_ofPass hpass).settle hsettled
  refine ⟨settled, hkeeps, ?_, hstats⟩
  rw [htext]
  refine OutLine.contents_joinLines text ?_
  split
  · exact Draft.feed_not_mem_addMarker hkeeps.feed
  · exact hkeeps.feed

/-- The lines that are not blank come out of a repair as they went in, up to their order and their
indentation, and beside them exactly one marker if the repair reports it. -/
theorem contents_repair (engine : Engine) (text : Text) (repair : Repair)
    (h : engine.repair text = .ok repair) :
    repair.text.contents.Perm
      ((if repair.stats.documentStart then [['-', '-', '-']] else []) ++ text.contents) := by
  obtain ⟨settled, hkeeps, hcontents, hstats⟩ := contents_of_repair h
  rw [hcontents, hstats]
  cases hoption : engine.ensureDocumentStart with
  | false =>
    rw [if_neg Bool.false_ne_true, hkeeps.unmarked]
    exact hkeeps.lines
  | true =>
    rw [if_pos rfl, Draft.contents_addMarker hkeeps.unmarked]
    exact hkeeps.lines.append_left _

/-- A task list whose items, lists and attributes all stand in the wrong place. -/
def nudged : Text :=
  "tasks:\n- name: t\n  tags:\n    - a\n    register: r\n".toList

theorem contents_repair_nudged :
    ∃ repair : Repair, repair.stats.documentStart = true ∧ repair.stats.relocated = 1 ∧
      repair.text.contents.Perm (['-', '-', '-'] :: nudged.contents) := by
  have hok : (repair { ensureDocumentStart := true } nudged).toOption.any fun repair =>
      repair.stats.documentStart && repair.stats.relocated == 1 := by decide +kernel
  cases hrepair : repair { ensureDocumentStart := true } nudged with
  | error failure => simp [hrepair, Except.toOption] at hok
  | ok repaired =>
    have hperm := contents_repair { ensureDocumentStart := true } nudged repaired hrepair
    simp only [hrepair, Except.toOption, Option.any_some, Bool.and_eq_true, beq_iff_eq] at hok
    obtain ⟨hmarked, hrelocated⟩ := hok
    rw [hmarked] at hperm
    exact ⟨repaired, hmarked, hrelocated, hperm⟩

end Engine
end Reindent
