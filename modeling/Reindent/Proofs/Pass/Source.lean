import Reindent.Proofs.Text.Endings
import Reindent.Proofs.Pass.CoreRun
import Reindent.Proofs.Pass.Trail
import Reindent.Proofs.Document.Returns

/-!
# Reindent.Proofs.Pass.Source

Where the lines of the output come from, and what comes with them.

* `Pass.source`        — the line of the input that a line of the output was.
* `source_lt`, `source_injective` — no line is used twice.
* `Text.returnsAt`     — the carriage returns at the end of a line of a document.
* `returnsAt_joinLines_of_closed`, `returnsAt_joinLines_of_open` — those of a document joined from
  the lines of a pass, from those of the document that the pass went over.
-/

namespace Reindent

namespace Text

def returnsAt (t : Text) (i : Nat) : Nat :=
  (t.splitLines[i]?.map RawLine.returns).getD 0

theorem returnsAt_of_getElem? {t : Text} {i : Nat} {line : RawLine}
    (h : t.splitLines[i]? = some line) : t.returnsAt i = line.returns := by
  rw [returnsAt, h]
  rfl

end Text

namespace Pass

/-- The index of the line of the input that became the line at `i` of the output. -/
def source (pass : Pass) (i : Nat) : Nat :=
  (pass.lines[i]?.map OutLine.number).getD 0 - 1

variable {registry : Registry} {text : Text} {pass : Pass}

theorem length_lines_run (h : run registry text = .ok pass) :
    pass.lines.length = text.splitLines.length := by
  obtain ⟨state, _, _, hcollect⟩ := runLines_ok h
  obtain ⟨hlength, hlines, _, _, _⟩ := collect_ok hcollect
  rw [hlines, List.length_reverse, hlength]

theorem inputLines_run (h : run registry text = .ok pass) :
    pass.inputLines = text.splitLines.length := by
  obtain ⟨state, _, _, hcollect⟩ := runLines_ok h
  obtain ⟨_, _, hcount, _, _⟩ := collect_ok hcollect
  exact hcount

theorem raw_of_mem_run (h : run registry text = .ok pass) {out : OutLine}
    (hout : out ∈ pass.lines) :
    ∃ i raw, out.number = i + 1 ∧ text.splitLines[i]? = some raw ∧ out.ending = raw.ending ∧
      Text.returns out.body = Text.returns raw.body := by
  obtain ⟨outs, houts, hperm⟩ := runLines_writes h
  obtain ⟨input, hinput, hwrites⟩ := OutLine.exists_writes houts (hperm.subset hout)
  obtain ⟨i, raw, hraw, rfl⟩ := InputLine.raw_of_mem_ofLines hinput
  obtain ⟨column, hbody⟩ := hwrites.body
  refine ⟨i, raw, ?_, hraw, hwrites.ending, ?_⟩
  · rw [hwrites.number]
    exact Nat.add_comm 1 i
  · rw [hbody, Text.returns_spaces_append, Line.content, Line.text_ofText, Line.indent_ofText,
      Text.returns_drop_indent]

theorem source_spec (h : run registry text = .ok pass) {i : Nat} {out : OutLine}
    (hout : pass.lines[i]? = some out) :
    ∃ raw, text.splitLines[pass.source i]? = some raw ∧ out.ending = raw.ending ∧
      Text.returns out.body = Text.returns raw.body := by
  obtain ⟨j, raw, hnumber, hraw, hending, hreturns⟩ := raw_of_mem_run h (List.mem_of_getElem? hout)
  refine ⟨raw, ?_, hending, hreturns⟩
  rw [source, hout, Option.map_some, Option.getD_some, hnumber, Nat.add_sub_cancel]
  exact hraw

theorem source_lt (h : run registry text = .ok pass) {i : Nat} (hi : i < pass.lines.length) :
    pass.source i < text.splitLines.length := by
  obtain ⟨raw, hraw, _, _⟩ := source_spec h (List.getElem?_eq_getElem hi)
  exact (List.getElem?_eq_some_iff.1 hraw).1

theorem source_injective (h : run registry text = .ok pass) {i i' : Nat}
    (hi : i < pass.lines.length) (hi' : i' < pass.lines.length)
    (heq : pass.source i = pass.source i') : i = i' := by
  obtain ⟨j, _, hnumber, _⟩ := raw_of_mem_run h (List.getElem_mem hi)
  obtain ⟨j', _, hnumber', _⟩ := raw_of_mem_run h (List.getElem_mem hi')
  simp only [source, List.getElem?_eq_getElem hi, List.getElem?_eq_getElem hi', Option.map_some,
    Option.getD_some] at heq
  have hsame : pass.lines[i].number = pass.lines[i'].number := by omega
  have hnodup := nodup_number_run h
  have hlt : i < (pass.lines.map OutLine.number).length := by
    rw [List.length_map]
    exact hi
  have hlt' : i' < (pass.lines.map OutLine.number).length := by
    rw [List.length_map]
    exact hi'
  have hmap : (pass.lines.map OutLine.number)[i] = (pass.lines.map OutLine.number)[i'] := by
    rw [List.getElem_map, List.getElem_map, hsame]
  exact (List.Nodup.getElem_inj_iff hnodup).1 hmap

/-! ### The carriage returns of the output -/

/-- The carriage returns of a line that is joined with the conventions of `model`. -/
theorem returnsAt_joinLines (h : run registry text = .ok pass) {model : Text}
    (hlength : (joinLines model (pass.lines.map OutLine.toRawLine)).splitLines.length =
      pass.lines.length) {i : Nat} (hi : i < pass.lines.length) {raw : RawLine}
    (hraw : text.splitLines[pass.source i]? = some raw) :
    (joinLines model (pass.lines.map OutLine.toRawLine)).returnsAt i =
      Text.returns raw.body +
        if (if i + 1 = pass.lines.length then model.finalEnding
            else if raw.ending = .missing then model.commonEnding else raw.ending) = .crlf then 1
        else 0 := by
  have hfeed : ∀ line ∈ pass.lines.map OutLine.toRawLine, '\n' ∉ line.body := by
    intro line hline
    obtain ⟨out, hout, rfl⟩ := List.mem_map.1 hline
    exact feed_not_mem_run h out hout
  have hlength' : (joinLines model (pass.lines.map OutLine.toRawLine)).splitLines.length =
      (pass.lines.map OutLine.toRawLine).length := by
    rw [hlength, List.length_map]
  have hline := Text.getElem?_splitLines_joinLines hfeed hlength' i
  obtain ⟨raw', hraw', hending, hreturns⟩ := source_spec h (List.getElem?_eq_getElem hi)
  rw [hraw, Option.some.injEq] at hraw'
  subst hraw'
  rw [List.getElem?_map, List.getElem?_eq_getElem hi, Option.map_some, Option.map_some,
    List.length_map] at hline
  rw [Text.returnsAt_of_getElem? hline, RawLine.returns_reread, RawLine.returns, hreturns, hending]

theorem returnsAt_joinLines_of_closed (h : run registry text = .ok pass)
    (hfinal : text.finalEnding ≠ .missing) {model : Text}
    (hlength : (joinLines model (pass.lines.map OutLine.toRawLine)).splitLines.length =
      pass.lines.length)
    {last : Nat} (hlast : pass.lines.length = last + 1) {i : Nat} (hi : i ≤ last) :
    (joinLines model (pass.lines.map OutLine.toRawLine)).returnsAt i =
      closedReturns last pass.source (decide (model.finalEnding = .crlf)) text.returnsAt i := by
  have hlt : i < pass.lines.length := by omega
  obtain ⟨raw, hraw, _, _⟩ := source_spec h (List.getElem?_eq_getElem hlt)
  have hread : raw.reread = raw := Text.reread_of_mem_splitLines (List.mem_of_getElem? hraw)
  have hmissing : raw.ending ≠ .missing := fun hm => hfinal ((Text.missing_iff hraw).1 hm).2
  rw [returnsAt_joinLines h hlength hlt hraw]
  rcases Nat.lt_or_eq_of_le hi with hinner | rfl
  · have hne : i + 1 ≠ pass.lines.length := by omega
    rw [if_neg hne, if_neg hmissing, closedReturns_of_ne (Nat.ne_of_lt hinner),
      Text.returnsAt_of_getElem? hraw, RawLine.returns]
  · rw [if_pos hlast.symm, closedReturns_last, Text.returnsAt_of_getElem? hraw,
      RawLine.returns_body hread, if_neg hmissing]
    by_cases hcrlf : model.finalEnding = .crlf
    · rw [if_pos hcrlf, decide_eq_true hcrlf]
      rfl
    · rw [if_neg hcrlf, decide_eq_false hcrlf]
      rfl

theorem returnsAt_joinLines_of_open (h : run registry text = .ok pass)
    (hfinal : text.finalEnding = .missing) {model : Text} (hmodel : model.finalEnding = .missing)
    (hlength : (joinLines model (pass.lines.map OutLine.toRawLine)).splitLines.length =
      pass.lines.length)
    {last : Nat} (hlast : pass.lines.length = last + 1) {i : Nat} (hi : i ≤ last) :
    (joinLines model (pass.lines.map OutLine.toRawLine)).returnsAt i =
      openReturns last pass.source (decide (model.commonEnding = .crlf)) text.returnsAt i := by
  have hlt : i < pass.lines.length := by omega
  have hcount := length_lines_run h
  obtain ⟨raw, hraw, _, _⟩ := source_spec h (List.getElem?_eq_getElem hlt)
  have hread : raw.reread = raw := Text.reread_of_mem_splitLines (List.mem_of_getElem? hraw)
  have hmissing : raw.ending = .missing ↔ pass.source i = last := by
    rw [Text.missing_iff hraw, ← hcount, hlast, Nat.add_right_cancel_iff]
    exact and_iff_left hfinal
  rw [returnsAt_joinLines h hlength hlt hraw, openReturns]
  rcases Nat.lt_or_eq_of_le hi with hinner | rfl
  · have hne : i + 1 ≠ pass.lines.length := by omega
    rw [if_neg hne, if_neg (Nat.ne_of_lt hinner)]
    by_cases hsource : pass.source i = last
    · have hend := hmissing.2 hsource
      rw [if_pos hend, if_pos hsource, ← hsource, Text.returnsAt_of_getElem? hraw,
        RawLine.returns_body hread, if_pos hend]
      by_cases hcrlf : model.commonEnding = .crlf
      · rw [if_pos hcrlf, decide_eq_true hcrlf]
        rfl
      · rw [if_neg hcrlf, decide_eq_false hcrlf]
        rfl
    · have hend : raw.ending ≠ .missing := fun hm => hsource (hmissing.1 hm)
      rw [if_neg hend, if_neg hsource, Text.returnsAt_of_getElem? hraw, RawLine.returns]
  · have hcrlf : model.finalEnding ≠ .crlf := by
      rw [hmodel]
      decide
    rw [if_pos hlast.symm, if_neg hcrlf, if_pos rfl, RawLine.returns_body hread, Nat.add_zero]
    by_cases hsource : pass.source i = i
    · rw [if_pos (hmissing.2 hsource), if_pos hsource]
      rw [hsource] at hraw
      rw [Text.returnsAt_of_getElem? hraw]
    · rw [if_neg (fun hm => hsource (hmissing.1 hm)), if_neg hsource,
        Text.returnsAt_of_getElem? hraw]

end Pass

/-! ### Conventions, in carriage returns -/

namespace Text

theorem decide_finalEnding {t : Text} {last : Nat} (hlast : t.splitLines.length = last + 1)
    (hfinal : t.finalEnding ≠ .missing) :
    decide (t.finalEnding = .crlf) = decide (0 < t.returnsAt last) := by
  have hlt : last < t.splitLines.length := by omega
  have hline := List.getElem?_eq_getElem hlt
  have hread : t.splitLines[last].reread = t.splitLines[last] :=
    reread_of_mem_splitLines (List.getElem_mem hlt)
  have hending : t.finalEnding = t.splitLines[last].ending := by
    have hindex : t.splitLines.length - 1 = last := by omega
    rw [finalEnding_eq, List.getLast?_eq_getElem?, hindex, hline]
    rfl
  rw [hending] at hfinal
  have hreturns := RawLine.ending_of_returns hread hfinal
  rw [returnsAt_of_getElem? hline, hending, hreturns]
  by_cases hzero : t.splitLines[last].returns = 0
  · simp [hzero]
  · simp [hzero, Nat.pos_iff_ne_zero]

theorem decide_commonEnding {t : Text} {last : Nat} (hlast : t.splitLines.length = last + 1)
    (hfinal : t.finalEnding = .missing) :
    decide (t.commonEnding = .crlf) = hasReturns last t.returnsAt := by
  have hcommon : t.commonEnding = .crlf ↔ t.containsCrlf = true := by
    rw [commonEnding]
    split
    · rename_i h
      simp [h]
    · rename_i h
      simp [h]
  rw [hasReturns]
  refine decide_eq_decide.2 ?_
  rw [hcommon, containsCrlf_iff]
  constructor
  · rintro ⟨line, hline, hcrlf⟩
    obtain ⟨i, hi, hget⟩ := List.getElem_of_mem hline
    have hsome : t.splitLines[i]? = some line := by rw [List.getElem?_eq_getElem hi, hget]
    refine ⟨i, ?_, ?_⟩
    · have hne : i + 1 ≠ t.splitLines.length := by
        intro heq
        have hmissing := (missing_iff hsome).2 ⟨heq, hfinal⟩
        rw [hcrlf] at hmissing
        cases hmissing
      omega
    · rw [returnsAt_of_getElem? hsome, RawLine.returns, if_pos hcrlf]
      exact Nat.succ_pos _
  · rintro ⟨i, hi, hpos⟩
    have hlt : i < t.splitLines.length := by omega
    have hsome := List.getElem?_eq_getElem hlt
    have hread : t.splitLines[i].reread = t.splitLines[i] :=
      reread_of_mem_splitLines (List.getElem_mem hlt)
    have hmissing : t.splitLines[i].ending ≠ .missing := by
      intro hm
      have := ((missing_iff hsome).1 hm).1
      omega
    refine ⟨t.splitLines[i], List.getElem_mem hlt, ?_⟩
    rw [returnsAt_of_getElem? hsome] at hpos
    rw [RawLine.ending_of_returns hread hmissing, if_neg (Nat.ne_of_gt hpos)]

end Text
end Reindent
