import Reindent.Proofs.Document.Outcome
import Reindent.Proofs.Pass.Source

/-!
# Reindent.Proofs.Document.Course

The passes over a document until one leaves it as it is.

* `Course`           — the documents before each pass, and the passes.
* `settle_course`    — a draft that settles has had one.
* `Course.keeps_result` — the lines of the last pass that changed something, joined with the
  conventions of the first document, are kept by a pass but for their ends.
-/

namespace Reindent

/-- A pass leaves the document as it is. -/
def Settled (registry : Registry) (text : Text) : Prop :=
  ∃ pass, Pass.run registry text = .ok pass ∧ pass.text text = text

/-- The pass leaves every line of the document as it is, but for its end. -/
def Pass.Keeps (pass : Pass) (text : Text) : Prop :=
  pass.lines.map (fun line => Text.core line.body) = text.lines.map Text.core

/-- The lines of the output, without numbers and marks. -/
def Pass.rawLines (pass : Pass) : List RawLine :=
  pass.lines.map OutLine.toRawLine

/-- The documents before each of `k + 2` passes, the last of which changes nothing. -/
structure Course (registry : Registry) (text : Text) (k : Nat) where
  docs : Nat → Text
  passes : Nat → Pass
  start : docs 0 = text
  runs : ∀ j ≤ k + 1, Pass.run registry (docs j) = .ok (passes j)
  next : ∀ j ≤ k, docs (j + 1) = (passes j).text (docs j)
  settled : (passes (k + 1)).text (docs (k + 1)) = docs (k + 1)

variable {registry : Registry} {text : Text}

namespace Course

/-- The pass after `first` leaves the document as it is. -/
def single {first last : Pass} (hfirst : Pass.run registry text = .ok first)
    (hlast : Pass.run registry (first.text text) = .ok last)
    (hsettled : last.text (first.text text) = first.text text) : Course registry text 0 where
  docs j := if j = 0 then text else first.text text
  passes j := if j = 0 then first else last
  start := rfl
  runs j _ := by
    by_cases hj : j = 0
    · rw [if_pos hj, if_pos hj]
      exact hfirst
    · rw [if_neg hj, if_neg hj]
      exact hlast
  next j hj := by
    obtain rfl : j = 0 := Nat.le_zero.1 hj
    rfl
  settled := hsettled

/-- A pass before a course. -/
def cons {k : Nat} {first : Pass} (hfirst : Pass.run registry text = .ok first)
    (course : Course registry (first.text text) k) : Course registry text (k + 1) where
  docs j := j.casesOn text course.docs
  passes j := j.casesOn first course.passes
  start := rfl
  runs j hj := by
    cases j with
    | zero => exact hfirst
    | succ j => exact course.runs j (Nat.le_of_succ_le_succ hj)
  next j hj := by
    cases j with
    | zero => exact course.start
    | succ j => exact course.next j (Nat.le_of_succ_le_succ hj)
  settled := course.settled

end Course

theorem settle_course {remaining : Nat} {draft settled : Draft} {pass : Pass}
    (hrun : Pass.run registry text = .ok pass) (hlines : draft.lines = pass.lines)
    (hbody : draft.body = pass.text text) (h : draft.settle registry remaining = .ok settled) :
    ∃ k, ∃ course : Course registry text k, settled.lines = (course.passes k).lines := by
  induction remaining generalizing text draft pass with
  | zero =>
    obtain ⟨last, hlast, ⟨hsame, rfl⟩ | ⟨_, left, hleft, _⟩⟩ := Draft.settle_ok h
    · rw [hbody] at hlast hsame
      exact ⟨0, .single hrun hlast hsame, hlines⟩
    · cases hleft
  | succ remaining ih =>
    obtain ⟨last, hlast, ⟨hsame, rfl⟩ | ⟨_, left, hleft, hrest⟩⟩ := Draft.settle_ok h
    · rw [hbody] at hlast hsame
      exact ⟨0, .single hrun hlast hsame, hlines⟩
    · cases hleft
      rw [hbody] at hlast
      have hadvanced : (draft.advance (maxPasses - remaining) last).body =
          last.text (pass.text text) := by
        rw [← hbody]
        rfl
      obtain ⟨k, course, hsettled⟩ := ih hlast rfl hadvanced hrest
      exact ⟨k + 1, course.cons hrun, hsettled⟩

/-! ### One pass -/

namespace Pass

variable {pass : Pass}

theorem length_rawLines (h : run registry text = .ok pass) :
    pass.rawLines.length = text.splitLines.length := by
  rw [rawLines, List.length_map, length_lines_run h]

theorem feed_not_mem_rawLines (h : run registry text = .ok pass) :
    ∀ line ∈ pass.rawLines, '\n' ∉ line.body := by
  intro line hline
  obtain ⟨out, hout, rfl⟩ := List.mem_map.1 hline
  exact feed_not_mem_run h out hout

theorem keeps_iff :
    pass.Keeps text ↔ pass.rawLines.map RawLine.bare = text.splitLines.map RawLine.bare := by
  have hcores : ∀ lines : List RawLine,
      (lines.map RawLine.bare).map RawLine.body = lines.map fun line => Text.core line.body := by
    intro lines
    rw [List.map_map]
    rfl
  have hbare : ∀ lines : List RawLine, (lines.map fun line => Text.core line.body).map
      (fun body => (⟨body, .missing⟩ : RawLine)) = lines.map RawLine.bare := by
    intro lines
    rw [List.map_map]
    rfl
  have hlines : pass.rawLines.map (fun line => Text.core line.body) =
      pass.lines.map fun line => Text.core line.body := by
    rw [rawLines, List.map_map]
    rfl
  have htext : text.splitLines.map (fun line => Text.core line.body) =
      text.lines.map Text.core := by
    rw [Text.lines, List.map_map]
    rfl
  rw [Keeps, ← hlines, ← htext]
  constructor
  · intro h
    rw [← hbare, h, hbare]
  · intro h
    rw [← hcores, h, hcores]

theorem run_of_bare {text' : Text} (h : run registry text = .ok pass)
    (hbare : text'.splitLines.map RawLine.bare = text.splitLines.map RawLine.bare) :
    ∃ pass', run registry text' = .ok pass' ∧ pass'.bare = pass.bare :=
  runLines_of_bare h hbare

theorem bare_rawLines_congr {pass' : Pass} (h : pass'.bare = pass.bare) :
    pass'.rawLines.map RawLine.bare = pass.rawLines.map RawLine.bare := by
  have hlines : ∀ pass : Pass, pass.rawLines.map RawLine.bare =
      pass.bare.lines.map OutLine.toRawLine := by
    intro pass
    rw [rawLines, bare, List.map_map, List.map_map]
    rfl
  rw [hlines, hlines, h]

theorem source_congr {pass' : Pass} (h : pass'.bare = pass.bare) (i : Nat) :
    pass'.source i = pass.source i := by
  have hnumber : ∀ pass : Pass, pass.lines[i]?.map OutLine.number =
      pass.bare.lines[i]?.map OutLine.number := by
    intro pass
    rw [bare, List.getElem?_map, Option.map_map]
    rfl
  rw [source, source, hnumber pass', h, ← hnumber pass]

/-- A pass that loses no line leaves a terminator at the end of the document if there is one. -/
theorem finalEnding_text_iff (h : run registry text = .ok pass)
    (hlength : (pass.text text).splitLines.length = text.splitLines.length) :
    (pass.text text).finalEnding = .missing ↔ text.finalEnding = .missing := by
  have hjoined : pass.text text = joinLines text pass.rawLines := rfl
  rw [hjoined] at hlength ⊢
  by_cases hnil : pass.rawLines = []
  · have hsplit : text.splitLines = [] := by
      rw [← List.length_eq_zero_iff, ← length_rawLines h, hnil, List.length_nil]
    have hempty : text = [] := by
      rw [← Text.flatMap_text_splitLines text, hsplit, List.flatMap_nil]
    rw [hnil, hempty]
    rfl
  · rw [← length_rawLines h] at hlength
    exact Text.finalEnding_joinLines (feed_not_mem_rawLines h) hnil hlength

/-- A pass that leaves the document as it is keeps every line. -/
theorem keeps_of_text_eq (h : run registry text = .ok pass) (hsettled : pass.text text = text) :
    pass.Keeps text := by
  have hlength : (joinLines text pass.rawLines).splitLines.length = pass.rawLines.length := by
    rw [length_rawLines h]
    exact congrArg (fun t : Text => t.splitLines.length) hsettled
  have hbare := Text.map_bare_of_length (feed_not_mem_rawLines h) hlength
  have htext : joinLines text pass.rawLines = text := hsettled
  rw [htext] at hbare
  exact keeps_iff.2 hbare.symm

theorem Keeps.map_bare_text (hkeeps : pass.Keeps text) (h : run registry text = .ok pass)
    (hlength : (pass.text text).splitLines.length = text.splitLines.length) :
    (pass.text text).splitLines.map RawLine.bare = text.splitLines.map RawLine.bare := by
  rw [← length_rawLines h] at hlength
  rw [← keeps_iff.1 hkeeps]
  exact Text.map_bare_of_length (feed_not_mem_rawLines h) hlength

theorem Keeps.congr {text' : Text} {pass' : Pass} (h : pass.Keeps text)
    (hpass : pass'.bare = pass.bare)
    (hbare : text'.splitLines.map RawLine.bare = text.splitLines.map RawLine.bare) :
    pass'.Keeps text' := by
  rw [keeps_iff, bare_rawLines_congr hpass, keeps_iff.1 h, hbare]

end Pass

namespace Course

variable {k : Nat} (course : Course registry text k)

theorem length_docs_le {j d : Nat} (h : j + d ≤ k + 1) :
    (course.docs (j + d)).splitLines.length ≤ (course.docs j).splitLines.length := by
  induction d with
  | zero => exact Nat.le_refl _
  | succ d ih =>
    have hj : j + d ≤ k := by omega
    have hrun := course.runs (j + d) (by omega)
    have hless := Text.length_splitLines_joinLines_le (course.docs (j + d))
      (Pass.feed_not_mem_rawLines hrun)
    rw [Pass.length_rawLines hrun] at hless
    rw [← Nat.add_assoc, course.next (j + d) hj]
    exact Nat.le_trans hless (ih (by omega))

variable (hcount : (course.passes k).rawLines.length = text.splitLines.length)
include hcount

theorem length_docs {j : Nat} (hj : j ≤ k) :
    (course.docs j).splitLines.length = text.splitLines.length := by
  have hfirst := course.length_docs_le (j := 0) (d := j) (by omega)
  have hlast := course.length_docs_le (j := j) (d := k - j) (by omega)
  have hsum : j + (k - j) = k := by omega
  rw [Nat.zero_add, course.start] at hfirst
  rw [hsum, ← Pass.length_rawLines (course.runs k (by omega)), hcount] at hlast
  exact Nat.le_antisymm hfirst hlast

theorem finalEnding_docs {j : Nat} (hj : j ≤ k) :
    (course.docs j).finalEnding = .missing ↔ text.finalEnding = .missing := by
  induction j with
  | zero => rw [course.start]
  | succ j ih =>
    have hlt : j ≤ k := Nat.le_of_succ_le hj
    have hnext := course.next j hlt
    have hlength : ((course.passes j).text (course.docs j)).splitLines.length =
        (course.docs j).splitLines.length := by
      rw [← hnext, course.length_docs hcount hj, course.length_docs hcount hlt]
    rw [← ih hlt, hnext]
    exact Pass.finalEnding_text_iff (course.runs j (by omega)) hlength

/-- What the passes settle on and the same lines with the conventions of the first document differ
in the ends of lines. -/
theorem map_bare_result :
    (joinLines text (course.passes k).rawLines).splitLines.map RawLine.bare =
      (course.docs (k + 1)).splitLines.map RawLine.bare := by
  have hnext : course.docs (k + 1) = joinLines (course.docs k) (course.passes k).rawLines :=
    course.next k (Nat.le_refl k)
  rw [hnext]
  exact Text.map_bare_joinLines (course.finalEnding_docs hcount (Nat.le_refl k)).symm
    (Pass.feed_not_mem_rawLines (course.runs k (by omega)))

theorem keeps_result :
    ∃ pass, Pass.run registry (joinLines text (course.passes k).rawLines) = .ok pass ∧
      pass.Keeps (joinLines text (course.passes k).rawLines) := by
  have hrun := course.runs (k + 1) (Nat.le_refl _)
  have hbare := course.map_bare_result hcount
  obtain ⟨pass, hpass, hsame⟩ := Pass.run_of_bare hrun hbare
  exact ⟨pass, hpass, (Pass.keeps_of_text_eq hrun course.settled).congr hsame hbare⟩

end Course
end Reindent
