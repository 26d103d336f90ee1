import Reindent.Proofs.Document.Idempotence
import Reindent.Proofs.Text.Crlf

/-!
# Reindent.Proofs.Document.Crlf

A document that is written with `\r\n` is repaired like the one with line feeds alone.

* `Pass.run_toCrlf`     — a pass over it gives the same lines, each with the other terminator.
* `Draft.settle_toCrlf` — and so do all passes until it is settled.
* `repair_toCrlf`       — the repaired document is the other one, written with `\r\n`.
-/

namespace Reindent

def OutLine.toCrlf (line : OutLine) : OutLine :=
  { line with toRawLine := line.toRawLine.toCrlf }

/-! ### One pass -/

namespace Pass

def toCrlf (pass : Pass) : Pass :=
  { pass with lines := pass.lines.map OutLine.toCrlf }

variable {registry : Registry} {text : Text} {pass : Pass}

theorem rawLines_toCrlf (pass : Pass) :
    pass.toCrlf.rawLines = pass.rawLines.map RawLine.toCrlf := by
  simp only [rawLines, toCrlf, List.map_map]
  rfl

theorem bare_zero_event (event : Event) : event.bare 0 = event := by
  cases event <;> rfl

theorem bare_zero_failure (failure : Failure) : failure.bare 0 = failure := by
  have hevents : failure.events.map (Event.bare 0) = failure.events := by
    rw [List.map_congr_left fun event _ => bare_zero_event event, List.map_id']
  rw [Failure.bare, hevents]

/-- Bare passes agree in all but the lines. -/
theorem eq_of_bare {pass' : Pass} (h : pass'.bare = pass.bare) :
    pass' = { pass with lines := pass'.lines } := by
  have hevents : ∀ events : List Event, events.map (Event.bare 0) = events := fun events => by
    rw [List.map_congr_left fun event _ => bare_zero_event event, List.map_id']
  have hstats : ∀ stats : Stats, stats.bare 0 = stats := fun stats => by
    simp [Stats.bare]
  simp only [bare, hevents, hstats, Pass.mk.injEq] at h
  obtain ⟨-, hcount, hstats, hevents⟩ := h
  cases pass
  cases pass'
  cases hcount
  cases hstats
  cases hevents
  rfl

/-- A line of the output with `\r\n` is the one without carriage returns but for its end. -/
theorem toCrlf_of_bare {pass' : Pass} (hreturn : '\r' ∉ text) (h : run registry text = .ok pass)
    (h' : run registry text.toCrlf = .ok pass') {out out' : OutLine} (hout : out ∈ pass.lines)
    (hout' : out' ∈ pass'.lines) (hbare : out'.bare 0 = out.bare 0) : out' = out.toCrlf := by
  obtain ⟨i, raw, hnumber, hraw, hending, hreturns⟩ := raw_of_mem_run h hout
  obtain ⟨i', raw', hnumber', hraw', hending', hreturns'⟩ := raw_of_mem_run h' hout'
  simp only [OutLine.bare, OutLine.mk.injEq, RawLine.bare, RawLine.mk.injEq] at hbare
  obtain ⟨⟨hcore, -⟩, hsame, hmoved, htrivia⟩ := hbare
  obtain rfl : i' = i := by omega
  rw [Text.splitLines_toCrlf hreturn, List.getElem?_map, hraw, Option.map_some,
    Option.some.injEq] at hraw'
  subst hraw'
  have hbody : out'.body = out.body := by
    rw [← Text.core_append_returns out'.body, ← Text.core_append_returns out.body, hcore, hreturns,
      hreturns']
    rfl
  have hend : out'.ending = out.ending.toCrlf := by
    rw [hending', hending]
    rfl
  obtain ⟨⟨body, ending⟩, number, moved, trivia⟩ := out
  obtain ⟨⟨body', ending'⟩, number', moved', trivia'⟩ := out'
  simp_all [OutLine.toCrlf, RawLine.toCrlf]

theorem run_toCrlf (hreturn : '\r' ∉ text) :
    run registry text.toCrlf = (run registry text).map toCrlf := by
  have hbare : text.toCrlf.splitLines.map RawLine.bare = text.splitLines.map RawLine.bare := by
    rw [Text.splitLines_toCrlf hreturn, List.map_map]
    rfl
  have hcongr := runLines_congr registry hbare
  simp only [run] at *
  cases hrun : runLines registry text.splitLines with
  | error failure =>
    cases hrun' : runLines registry text.toCrlf.splitLines with
    | error failure' =>
      simp only [hrun, hrun', outcome, bare_zero_failure] at hcongr
      exact hcongr
    | ok pass' =>
      rw [hrun, hrun'] at hcongr
      cases hcongr
  | ok pass =>
    cases hrun' : runLines registry text.toCrlf.splitLines with
    | error failure' =>
      rw [hrun, hrun'] at hcongr
      cases hcongr
    | ok pass' =>
      simp only [hrun, hrun', outcome, Except.ok.injEq] at hcongr
      have hlines : pass'.lines = pass.lines.map OutLine.toCrlf := by
        have hmap : pass'.lines.map (OutLine.bare 0) = pass.lines.map (OutLine.bare 0) :=
          congrArg Pass.lines hcongr
        refine List.ext_getElem? fun i => ?_
        have hi := congrArg (·[i]?) hmap
        simp only [List.getElem?_map] at hi ⊢
        cases hout : pass.lines[i]? with
        | none => simpa [hout] using hi
        | some out =>
          rw [hout, Option.map_some, Option.map_eq_some_iff] at hi
          obtain ⟨out', hout', hsame⟩ := hi
          rw [hout', Option.map_some, toCrlf_of_bare hreturn hrun hrun' (List.mem_of_getElem? hout)
            (List.mem_of_getElem? hout') hsame]
      rw [eq_of_bare hcongr, hlines]
      rfl

variable (h : run registry text = .ok pass)
include h

theorem joinLines_toCrlf (hreturn : '\r' ∉ text) {model : Text} (hmodel : '\r' ∉ model)
    (hfeed : '\n' ∈ model) :
    joinLines model.toCrlf pass.toCrlf.rawLines = (joinLines model pass.rawLines).toCrlf := by
  rw [rawLines_toCrlf]
  refine Text.toCrlf_joinLines hmodel hfeed (feed_not_mem_rawLines h) fun line hline => ?_
  exact (RawLine.return_not_mem_iff.1 (return_not_mem_rawLines h hreturn line hline)).2

theorem feed_mem_text (hfeed : '\n' ∈ text) : '\n' ∈ pass.text text := by
  refine @Text.feed_mem_joinLines text pass.rawLines ?_
  have hlength := length_rawLines h
  rcases Text.one_lt_length_or hfeed with hlong | ⟨hne, hfinal⟩
  · exact .inl (by rw [hlength]; exact hlong)
  · refine .inr ⟨?_, hfinal⟩
    rw [← List.length_pos_iff, hlength]
    exact List.length_pos_iff.2 hne

end Pass

/-! ### All passes -/

namespace Draft

def toCrlf (draft : Draft) : Draft :=
  { draft with lines := draft.lines.map OutLine.toCrlf, body := draft.body.toCrlf }

theorem ofPass_toCrlf {registry : Registry} {text : Text} {pass : Pass}
    (h : Pass.run registry text = .ok pass) (hreturn : '\r' ∉ text) (hfeed : '\n' ∈ text) :
    ofPass pass.toCrlf text.toCrlf = (ofPass pass text).toCrlf := by
  have hbody : pass.toCrlf.text text.toCrlf = (pass.text text).toCrlf :=
    Pass.joinLines_toCrlf h hreturn hreturn hfeed
  rw [ofPass, hbody]
  rfl

theorem advance_toCrlf {registry : Registry} {draft : Draft} {pass : Pass}
    (h : Pass.run registry draft.body = .ok pass) (hreturn : '\r' ∉ draft.body)
    (hfeed : '\n' ∈ draft.body) (number : Nat) :
    draft.toCrlf.advance number pass.toCrlf = (draft.advance number pass).toCrlf := by
  have hbody : pass.toCrlf.text draft.body.toCrlf = (pass.text draft.body).toCrlf :=
    Pass.joinLines_toCrlf h hreturn hreturn hfeed
  simp only [advance, toCrlf, hbody]
  rfl

theorem text_toCrlf_eq_iff {registry : Registry} {text : Text} {pass : Pass}
    (h : Pass.run registry text = .ok pass) (hreturn : '\r' ∉ text) (hfeed : '\n' ∈ text) :
    pass.toCrlf.text text.toCrlf = text.toCrlf ↔ pass.text text = text := by
  have hbody : pass.toCrlf.text text.toCrlf = (pass.text text).toCrlf :=
    Pass.joinLines_toCrlf h hreturn hreturn hfeed
  rw [hbody]
  exact ⟨Text.eq_of_toCrlf (Pass.return_not_mem_joined h hreturn hreturn) hreturn,
    congrArg Text.toCrlf⟩

/-- A draft settles in the same way with `\r\n`. -/
theorem settle_toCrlf (registry : Registry) (remaining : Nat) {draft : Draft}
    (hreturn : '\r' ∉ draft.body) (hfeed : '\n' ∈ draft.body) :
    draft.toCrlf.settle registry remaining = (draft.settle registry remaining).map toCrlf := by
  have hrun : Pass.run registry draft.toCrlf.body =
      (Pass.run registry draft.body).map Pass.toCrlf := Pass.run_toCrlf hreturn
  fun_induction settle registry remaining draft with
  | case1 remaining draft failure herror =>
    rw [settle, hrun, herror]
    rfl
  | case2 remaining draft pass hpass hsettled =>
    rw [settle, hrun, hpass]
    exact if_pos ((text_toCrlf_eq_iff hpass hreturn hfeed).2 hsettled)
  | case3 draft pass hpass hchanged =>
    rw [settle, hrun, hpass]
    exact if_neg (mt (text_toCrlf_eq_iff hpass hreturn hfeed).1 hchanged)
  | case4 draft pass hpass hchanged remaining ih =>
    have hreturn' : '\r' ∉ (draft.advance (maxPasses - remaining) pass).body :=
      Pass.return_not_mem_joined hpass hreturn hreturn
    have hfeed' : '\n' ∈ (draft.advance (maxPasses - remaining) pass).body :=
      Pass.feed_mem_text hpass hfeed
    rw [settle, hrun, hpass]
    refine (if_neg (mt (text_toCrlf_eq_iff hpass hreturn hfeed).1 hchanged)).trans ?_
    rw [← ih hreturn' hfeed' (Pass.run_toCrlf hreturn')]
    exact congrArg _ (advance_toCrlf hpass hreturn hfeed _)

theorem lacksMarker_toCrlf (lines : List OutLine) :
    lacksMarker (lines.map OutLine.toCrlf) = lacksMarker lines := by
  have hcontent : hasContent ∘ OutLine.toCrlf = hasContent := rfl
  rw [lacksMarker, lacksMarker, List.find?_map, hcontent, Option.any_map]
  rfl

theorem addMarker_toCrlf (draft : Draft) : draft.toCrlf.addMarker = draft.addMarker.toCrlf := by
  have hlacks : lacksMarker draft.toCrlf.lines = lacksMarker draft.lines :=
    lacksMarker_toCrlf draft.lines
  rw [addMarker, addMarker, hlacks]
  split <;> rfl

end Draft

/-- The repaired document, written with `\r\n`. -/
def Repair.toCrlf (repair : Repair) : Repair :=
  { repair with text := repair.text.toCrlf }

namespace Engine

/-- Lines without carriage returns and line feeds are collected in the same way with `\r\n`. -/
theorem collect_toCrlf {text : Text} (hreturn : '\r' ∉ text) (hfeed : '\n' ∈ text) (count : Nat)
    {draft : Draft} (hlines : ∀ line ∈ draft.lines, '\r' ∉ line.text ∧ '\n' ∉ line.body) :
    collect text.toCrlf count draft.toCrlf = (collect text count draft).map Repair.toCrlf := by
  have hplain : ∀ line ∈ draft.lines.map OutLine.toRawLine, '\r' ∉ line.text ∧ '\n' ∉ line.body :=
    List.forall_mem_map.2 hlines
  have hjoined : joinLines text.toCrlf (draft.toCrlf.lines.map OutLine.toRawLine) =
      (joinLines text (draft.lines.map OutLine.toRawLine)).toCrlf := by
    have hraw : draft.toCrlf.lines.map OutLine.toRawLine =
        (draft.lines.map OutLine.toRawLine).map RawLine.toCrlf := by
      simp only [Draft.toCrlf, List.map_map]
      rfl
    rw [hraw]
    exact Text.toCrlf_joinLines hreturn hfeed (fun line hline => (hplain line hline).2)
      fun line hline => (RawLine.return_not_mem_iff.1 (hplain line hline).1).2
  have hchanged : ((joinLines text (draft.lines.map OutLine.toRawLine)).toCrlf != text.toCrlf) =
      (joinLines text (draft.lines.map OutLine.toRawLine) != text) := by
    rw [Bool.eq_iff_iff, bne_iff_ne, bne_iff_ne]
    have hjoin := Text.return_not_mem_joinLines hreturn fun line hline => (hplain line hline).1
    exact not_congr ⟨Text.eq_of_toCrlf hjoin hreturn, congrArg Text.toCrlf⟩
  have hlength : draft.toCrlf.lines.length = draft.lines.length := List.length_map _
  have hstats : draft.toCrlf.stats = draft.stats := rfl
  by_cases hcount : draft.lines.length = count + if draft.stats.documentStart then 1 else 0
  · simp only [collect, hjoined, hchanged, hlength, hstats, hcount, ne_eq, not_true, if_false]
    rfl
  · simp only [collect, hlength, hstats, ne_eq, hcount, not_false_eq_true, if_true]
    rfl

theorem plain_addMarker {draft : Draft}
    (h : ∀ line ∈ draft.lines, '\r' ∉ line.text ∧ '\n' ∉ line.body) :
    ∀ line ∈ draft.addMarker.lines, '\r' ∉ line.text ∧ '\n' ∉ line.body := by
  rw [Draft.addMarker]
  split
  · exact List.forall_mem_cons.2 ⟨by decide, h⟩
  · exact h

/-- The lines that a document without carriage returns settles on have none either. -/
theorem plain_settle {registry : Registry} {text : Text} {pass : Pass} {settled : Draft}
    (hpass : Pass.run registry text = .ok pass) (hreturn : '\r' ∉ text)
    (h : (Draft.ofPass pass text).settle registry (maxPasses - 1) = .ok settled) :
    ∀ line ∈ settled.lines, '\r' ∉ line.text ∧ '\n' ∉ line.body := by
  obtain ⟨k, course, hlines⟩ := settle_course hpass rfl rfl h
  have hrun := course.runs k (Nat.le_succ k)
  have hdoc := course.return_not_mem hreturn (le_refl k)
  intro line hline
  have hraw : line.toRawLine ∈ (course.passes k).rawLines := by
    rw [hlines] at hline
    exact List.mem_map_of_mem hline
  exact ⟨Pass.return_not_mem_rawLines hrun hdoc _ hraw, Pass.feed_not_mem_rawLines hrun _ hraw⟩

/-- A document without carriage returns that has a line feed is repaired in the same way if it is
written with `\r\n`: the repair fails in the same way, or gives the same document, written with
`\r\n`, and has changed and counted the same. -/
theorem repair_toCrlf (engine : Engine) (text : Text) (hreturn : '\r' ∉ text)
    (hfeed : '\n' ∈ text) :
    engine.repair text.toCrlf = (engine.repair text).map Repair.toCrlf := by
  rw [repair, repair, Pass.run_toCrlf hreturn]
  cases hpass : Pass.run engine.registry text with
  | error failure => rfl
  | ok pass =>
    have hbody : '\r' ∉ (Draft.ofPass pass text).body :=
      Pass.return_not_mem_joined hpass hreturn hreturn
    have hbodyFeed : '\n' ∈ (Draft.ofPass pass text).body := Pass.feed_mem_text hpass hfeed
    have hsettle := Draft.settle_toCrlf engine.registry (maxPasses - 1) hbody hbodyFeed
    rw [← Draft.ofPass_toCrlf hpass hreturn hfeed] at hsettle
    simp only [Except.map, hsettle]
    cases hsettled : (Draft.ofPass pass text).settle engine.registry (maxPasses - 1) with
    | error failure => rfl
    | ok settled =>
      have hplain := plain_settle hpass hreturn hsettled
      have hcount : pass.toCrlf.inputLines = pass.inputLines := rfl
      cases engine.ensureDocumentStart with
      | false => exact collect_toCrlf hreturn hfeed _ hplain
      | true =>
        simp only [hcount, if_true, Draft.addMarker_toCrlf]
        exact collect_toCrlf hreturn hfeed _ (plain_addMarker hplain)

/-- An attribute is moved below the last line, which has no terminator. -/
def openEnded : Text :=
  "tasks:\n- name: t\n  tags:\n    - a\n    register: r\n    - b".toList

theorem repair_toCrlf_openEnded :
    ∃ repaired, repair {} openEnded = .ok repaired ∧ repaired.changed = true ∧
      repaired.stats.relocated = 1 ∧ repair {} openEnded.toCrlf = .ok repaired.toCrlf := by
  have hcrlf := repair_toCrlf {} openEnded (by decide) (by decide)
  have hok : (repair {} openEnded).toOption.any fun repaired =>
      repaired.changed && repaired.stats.relocated == 1 := by decide +kernel
  cases hrepair : repair {} openEnded with
  | error failure => simp [hrepair, Except.toOption] at hok
  | ok repaired =>
    simp only [hrepair, Except.toOption, Option.any_some, Bool.and_eq_true, beq_iff_eq] at hok
    rw [hrepair] at hcrlf
    exact ⟨repaired, rfl, hok.1, hok.2, hcrlf⟩

end Engine
end Reindent
