import Reindent.Proofs.Pass.Rearrangement
import Reindent.Proofs.Document.Course

/-!
# Reindent.Proofs.Document.LostLine

How many lines a pass leaves.

* `LosesLine` — the last line of the document has no terminator and is lifted out, over an empty
  line that stays.
* `losesLine_iff` — then, and only then, the output of the pass ends with an empty line that gets no
  terminator.
* `length_text_of_losesLine`, `length_text` — such a line is lost, and no other.
* `finalEnding_text_of_losesLine`, `finalEnding_text` — a document that loses a line is terminated
  from then on.
-/

namespace Reindent

theorem InputLine.map_raw_ofLines (n : Nat) (lines : List RawLine) :
    (ofLines n lines).map (fun input => (⟨input.line.text, input.ending⟩ : RawLine)) = lines := by
  induction lines generalizing n with
  | nil => rfl
  | cons raw rest ih => rw [ofLines, List.map_cons, ih, Line.text_ofText]

theorem Line.IsRead.category_of_content {line : Line} (hread : line.IsRead)
    (h : line.content = []) : line.category = .blank := by
  have htext := hread.spaces_append_content
  have htrim := Text.trim_spaces_append line.indent line.content
  rw [htext, h] at htrim
  rw [hread]
  simp only [ofText, htrim]
  rfl

namespace Pass

variable {registry : Registry} {text : Text} {pass : Pass}

theorem rearranges_run (h : run registry text = .ok pass) : pass.Rearranges registry text := by
  obtain ⟨final, hsteps, _⟩ := runLines_ok h
  obtain ⟨pass', hrun, hrearranges⟩ := rearranges_of_steps hsteps
  rw [h, Except.ok.injEq] at hrun
  rw [hrun]
  exact hrearranges

theorem exists_of_unmoved_concat {lines kept : List OutLine} {line : OutLine}
    (h : unmoved lines = kept ++ [line]) :
    ∃ above below, lines = above ++ line :: below ∧ line.moved = false ∧
      ∀ other ∈ below, other.moved = true := by
  obtain ⟨above, rest, rfl, _, hrest⟩ := List.filter_eq_append_iff.1 h
  obtain ⟨between, below, rfl, _, hline, hbelow⟩ := List.filter_eq_cons_iff.1 hrest
  refine ⟨above ++ between, below, by simp, by simpa using hline, ?_⟩
  simpa [List.filter_eq_nil_iff] using hbelow

/-- The last line has no terminator and is lifted out, and so are all lines below some empty line
that is not text of a block scalar. -/
structure LosesLine (registry : Registry) (text : Text) : Prop where
  unterminated : text.finalEnding = .missing
  lifted : ∃ before empty after, trailOf registry text = before ++ empty :: after ∧ after ≠ [] ∧
    (∀ visit ∈ after, visit.isRelocated registry = true) ∧ empty.input.line.text = [] ∧
    empty.isText = false

namespace Visit

variable {visit : Visit}

theorem not_isStructural_of_blank (h : visit.input.line.category = .blank) :
    visit.input.line.isStructural = false := by
  simp [Line.isStructural, Line.isTrivia, h]

theorem column_of_blank (h : visit.input.line.category = .blank) :
    visit.column registry = visit.input.line.indent := by
  simp only [column, h, if_true, not_isStructural_of_blank h, Bool.not_false]
  split <;> rfl

theorem not_isRelocated_of_blank (h : visit.input.line.category = .blank) :
    visit.isRelocated registry = false := by
  simp [isRelocated, isStructural, not_isStructural_of_blank h]

theorem body_out_eq_nil_iff (hread : visit.input.line.IsRead) :
    (visit.out registry).body = [] ↔ visit.input.line.text = [] := by
  have hbody : (visit.out registry).body =
      Text.spaces (visit.column registry) ++ visit.input.line.content := rfl
  have htext := hread.spaces_append_content
  constructor
  · intro h
    rw [hbody, List.append_eq_nil_iff] at h
    rw [column_of_blank (hread.category_of_content h.2)] at h
    rw [← htext, h.1, h.2]
    rfl
  · intro h
    rw [h, List.append_eq_nil_iff] at htext
    rw [hbody, column_of_blank (hread.category_of_content htext.2), htext.1, htext.2]
    rfl

theorem category_of_empty (hread : visit.input.line.IsRead)
    (h : visit.input.line.text = []) : visit.input.line.category = .blank := by
  refine hread.category_of_content ?_
  rw [Line.content, h, List.drop_nil]

end Visit

theorem isRead_of_mem_trailOf {visit : Visit} (h : visit ∈ trailOf registry text) :
    visit.input.line.IsRead :=
  InputLine.isRead_of_mem_ofLines (input_of_mem_trail h)

theorem Rearranges.text_last (h : pass.Rearranges registry text)
    (hmissing : text.finalEnding = .missing) {before : List Visit} {last : Visit}
    (htrail : trailOf registry text = before ++ [last]) : last.input.line.text ≠ [] := by
  intro hempty
  have hlines := InputLine.map_raw_ofLines 1 text.splitLines
  rw [← h.inputs, htrail, List.map_append, List.map_append] at hlines
  have hending : last.input.ending = .missing := by
    rw [Text.finalEnding_eq, ← hlines] at hmissing
    simpa using hmissing
  have hmem : (⟨last.input.line.text, last.input.ending⟩ : RawLine) ∈ text.splitLines := by
    rw [← hlines]
    simp
  refine Text.text_ne_nil_of_mem_splitLines hmem ?_
  rw [RawLine.text, hempty, hending]
  rfl

theorem Rearranges.number_lt (h : pass.Rearranges registry text) {before after : List Visit}
    {visit : Visit} (htrail : trailOf registry text = before ++ visit :: after) :
    ∀ below ∈ after, visit.input.number < below.input.number := by
  have hsorted : ((trailOf registry text).map fun visit => visit.input.number).Pairwise
      (· < ·) := by
    have hnumbers := InputLine.map_number_ofLines 1 text.splitLines
    rw [← h.inputs, List.map_map] at hnumbers
    exact hnumbers ▸ List.pairwise_lt_range'
  rw [htrail, List.map_append, List.pairwise_append, List.map_cons, List.pairwise_cons] at hsorted
  exact fun below hbelow => hsorted.2.1.1 _ (List.mem_map_of_mem hbelow)

/-- The empty line that stays below everything that was lifted over it. -/
theorem LosesLine.lastEmpty (hloses : LosesLine registry text) (h : run registry text = .ok pass) :
    RawLine.LastEmpty pass.rawLines := by
  have hpass := rearranges_run h
  obtain ⟨before, empty, after, htrail, hafter, hlifted, hempty, htext⟩ := hloses.lifted
  have hread : empty.input.line.IsRead := isRead_of_mem_trailOf (by rw [htrail]; simp)
  have hblank := Visit.category_of_empty hread hempty
  have hkept : unmoved pass.lines =
      unmoved (before.map (Visit.out registry)) ++ [empty.out registry] := by
    have hmoved : unmoved (after.map (Visit.out registry)) = [] := by
      rw [unmoved, List.filter_eq_nil_iff]
      intro line hline
      obtain ⟨visit, hvisit, rfl⟩ := List.mem_map.1 hline
      simpa using hlifted visit hvisit
    have hstays : (empty.out registry).moved = false := Visit.not_isRelocated_of_blank hblank
    rw [hpass.unmoved, htrail, List.map_append, List.map_cons, unmoved_append]
    rw [unmoved, unmoved, List.filter_cons, hstays]
    simpa [unmoved] using hmoved
  obtain ⟨above, below, hlines, _, hbelow⟩ := exists_of_unmoved_concat hkept
  cases below with
  | nil =>
    refine ⟨above.map OutLine.toRawLine, (empty.out registry).toRawLine, ?_, ?_⟩
    · rw [rawLines, hlines, List.map_append]
      rfl
    · exact (Visit.body_out_eq_nil_iff hread).2 hempty
  | cons line below =>
    -- A relocated line would stand directly below the empty one, which is trivia.
    have htouch := hpass.touch
    rw [hlines] at htouch
    have htrivia := (List.isChain_append_cons_cons.1 htouch).2.1 (hbelow line List.mem_cons_self)
    have htrivia' : (empty.out registry).trivia = true := by
      simp [Visit.out, htext, Line.isTrivia, hblank]
    rw [htrivia'] at htrivia
    cases htrivia

theorem Rearranges.exists_empty (h : pass.Rearranges registry text) {above : List OutLine}
    {line : OutLine} (hlines : pass.lines = above ++ [line]) (hbody : line.body = []) :
    ∃ before empty after, trailOf registry text = before ++ empty :: after ∧
      empty.out registry = line ∧ line.moved = false ∧
        ∀ visit ∈ after, visit.isRelocated registry = true := by
  have hstays : line.moved = false := by
    obtain ⟨visit, hvisit, rfl⟩ := List.mem_map.1 (h.perm.subset (hlines ▸ List.mem_concat_self))
    have hread := isRead_of_mem_trailOf hvisit
    exact Visit.not_isRelocated_of_blank
      (Visit.category_of_empty hread ((Visit.body_out_eq_nil_iff hread).1 hbody))
  have hkept : Pass.unmoved ((trailOf registry text).map (Visit.out registry)) =
      Pass.unmoved above ++ [line] := by
    rw [← h.unmoved, hlines, unmoved_append]
    simp [Pass.unmoved, hstays]
  obtain ⟨before', after', htrail, _, hmoved⟩ := exists_of_unmoved_concat hkept
  obtain ⟨before, tail, htrail', rfl, htail⟩ := List.map_eq_append_iff.1 htrail
  obtain ⟨empty, after, rfl, hempty, rfl⟩ := List.map_eq_cons_iff.1 htail
  exact ⟨before, empty, after, htrail', hempty, hstays,
    fun visit hvisit => hmoved _ (List.mem_map_of_mem hvisit)⟩

/-- Relocated lines go below text of a block scalar, so that it is not the last line above them. -/
theorem Rearranges.isText_of_last (h : pass.Rearranges registry text) {above : List OutLine}
    {before after : List Visit} {last : Visit} (hlines : pass.lines = above ++ [last.out registry])
    (htrail : trailOf registry text = before ++ last :: after) (hafter : after ≠ [])
    (hstays : last.isRelocated registry = false)
    (hlifted : ∀ visit ∈ after, visit.isRelocated registry = true) : last.isText = false := by
  cases hscalar : last.isText with
  | false => rfl
  | true =>
    obtain ⟨lifted, rest, rfl⟩ := List.exists_cons_of_ne_nil hafter
    have hrelocated := hlifted lifted List.mem_cons_self
    have hnumber := h.number_lt htrail lifted List.mem_cons_self
    have habove : lifted.out registry ∈ above := by
      have hmem : lifted.out registry ∈ pass.lines := by
        refine h.perm.mem_iff.2 (List.mem_map_of_mem ?_)
        rw [htrail]
        simp
      rw [hlines, List.mem_append, List.mem_singleton] at hmem
      refine hmem.resolve_right fun hsame => ?_
      have hmoved := congrArg OutLine.moved hsame
      rw [Visit.out_moved, Visit.out_moved, hrelocated, hstays] at hmoved
      cases hmoved
    have horder := h.order
    rw [hlines, List.pairwise_append] at horder
    have htrivia : (last.out registry).trivia = false := by
      simp [Visit.out, hscalar]
    have hfollows := horder.2.2 _ habove _ List.mem_cons_self hrelocated hstays htrivia
    rw [Visit.out_number, Visit.out_number] at hfollows
    omega

theorem losesLine_of_lastEmpty (h : run registry text = .ok pass)
    (hmissing : text.finalEnding = .missing) (hlast : RawLine.LastEmpty pass.rawLines) :
    LosesLine registry text := by
  have hpass := rearranges_run h
  obtain ⟨init, raw, hraw, hbody⟩ := hlast
  obtain ⟨above, rest, hlines, rfl, hrest⟩ := List.map_eq_append_iff.1 hraw
  obtain ⟨line, tail, rfl, rfl, htail⟩ := List.map_eq_cons_iff.1 hrest
  rw [List.map_eq_nil_iff.1 htail] at hlines
  obtain ⟨before, empty, after, htrail, rfl, hstays, hlifted⟩ := hpass.exists_empty hlines hbody
  have hread : empty.input.line.IsRead := isRead_of_mem_trailOf (by rw [htrail]; simp)
  have htext : empty.input.line.text = [] := (Visit.body_out_eq_nil_iff hread).1 hbody
  have hafter : after ≠ [] := by
    rintro rfl
    exact hpass.text_last hmissing htrail htext
  exact ⟨hmissing, before, empty, after, htrail, hafter, hlifted, htext,
    hpass.isText_of_last hlines htrail hafter hstays hlifted⟩

/-- The output of a pass over a document without a final terminator ends with an empty line exactly
if the last lines of the document are lifted over it. -/
theorem losesLine_iff (h : run registry text = .ok pass) :
    LosesLine registry text ↔
      RawLine.LastEmpty pass.rawLines ∧ text.finalEnding = .missing :=
  ⟨fun hloses => ⟨hloses.lastEmpty h, hloses.unterminated⟩,
    fun ⟨hlast, hmissing⟩ => losesLine_of_lastEmpty h hmissing hlast⟩

/-! ### The document that a pass leaves -/

theorem length_text_of_losesLine (h : run registry text = .ok pass)
    (hloses : LosesLine registry text) :
    (pass.text text).splitLines.length + 1 = text.splitLines.length := by
  rw [← length_rawLines h]
  exact Text.length_joinLines_of_lastEmpty hloses.unterminated (feed_not_mem_rawLines h)
    (hloses.lastEmpty h)

theorem length_text (h : run registry text = .ok pass) (hkeeps : ¬ LosesLine registry text) :
    (pass.text text).splitLines.length = text.splitLines.length := by
  rw [← length_rawLines h]
  rw [losesLine_iff h] at hkeeps
  exact Text.length_joinLines (feed_not_mem_rawLines h) hkeeps

theorem LosesLine.one_lt_length (hloses : LosesLine registry text)
    (h : run registry text = .ok pass) : 1 < pass.rawLines.length := by
  obtain ⟨before, empty, after, htrail, hafter, _⟩ := hloses.lifted
  have hlength := (rearranges_run h).perm.length_eq
  have hpos := List.length_pos_iff.2 hafter
  rw [htrail, List.length_map, List.length_append, List.length_cons] at hlength
  rw [rawLines, List.length_map]
  omega

theorem finalEnding_text_of_losesLine (h : run registry text = .ok pass)
    (hloses : LosesLine registry text) : (pass.text text).finalEnding ≠ .missing :=
  Text.finalEnding_joinLines_of_lastEmpty hloses.unterminated (feed_not_mem_rawLines h)
    (hloses.lastEmpty h) (hloses.one_lt_length h)

theorem finalEnding_text (h : run registry text = .ok pass) (hkeeps : ¬ LosesLine registry text) :
    (pass.text text).finalEnding = .missing ↔ text.finalEnding = .missing :=
  finalEnding_text_iff h (length_text h hkeeps)

end Pass
end Reindent
