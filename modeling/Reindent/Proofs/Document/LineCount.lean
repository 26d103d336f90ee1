import Reindent.Proofs.Document.Changes
import Reindent.Proofs.Document.LostLine
import Reindent.Proofs.Document.FrameOrder

/-!
# Reindent.Proofs.Document.LineCount

How many lines a repair leaves, and how they end.

* `Changes.kept_or_lost` — several passes lose one line at most, and then the document is
  terminated.
* `lineCountMismatch_iff` — a repair is given up on for a line that is missing exactly if one of its
  passes loses a line and another one changes the document after it.
* `LastPass`  — the pass that settles a document, and what a repair makes of its lines.
* `length_lines_repair_iff` — a repair that succeeds keeps the number of lines and whether the
  document is terminated, unless the pass that settles the document loses a line.
* `gives_up_on_lines`, `loses_last_line` — documents where these happen.
-/

namespace Reindent

variable {registry : Registry} {text doc : Text}

/-- On the way from `text` to `doc`, a pass over `mid` loses a line. -/
structure Changes.Lost (registry : Registry) (n : Nat) (text doc : Text) : Prop where
  lost : ∃ m l mid pass, Changes registry m text mid ∧ Pass.run registry mid = .ok pass ∧
    Pass.LosesLine registry mid ∧ Changes registry l (pass.text mid) doc ∧ n = m + 1 + l
  length : doc.splitLines.length + 1 = text.splitLines.length
  unterminated : text.finalEnding = .missing
  terminated : doc.finalEnding ≠ .missing

/-- Several passes lose one line at most. -/
theorem Changes.kept_or_lost {n : Nat} (h : Changes registry n text doc) :
    (doc.splitLines.length = text.splitLines.length ∧
      (doc.finalEnding = .missing ↔ text.finalEnding = .missing)) ∨
    Changes.Lost registry n text doc := by
  induction h with
  | refl => exact .inl ⟨rfl, Iff.rfl⟩
  | @cons n text doc pass hrun hchanged hrest ih =>
    by_cases hloses : Pass.LosesLine registry text
    · -- The document is terminated from here on, so that no further line is lost.
      have hlength := Pass.length_text_of_losesLine hrun hloses
      have hfinal := Pass.finalEnding_text_of_losesLine hrun hloses
      rcases ih with ⟨hcount, hending⟩ | hlost
      · refine .inr ⟨⟨0, n, text, pass, .refl, hrun, hloses, hrest, by omega⟩, ?_,
          hloses.unterminated, fun hmissing => hfinal (hending.1 hmissing)⟩
        rw [hcount, hlength]
      · exact absurd hlost.unterminated hfinal
    · have hlength := Pass.length_text hrun hloses
      have hfinal := Pass.finalEnding_text hrun hloses
      rcases ih with ⟨hcount, hending⟩ | ⟨⟨m, l, mid, loser, hmid, hloser, hmidLoses, hlast, hn⟩,
        hcount, hunterminated, hterminated⟩
      · exact .inl ⟨hcount.trans hlength, hending.trans hfinal⟩
      · exact .inr ⟨⟨m + 1, l, mid, loser, .cons hrun hchanged hmid, hloser, hmidLoses, hlast,
          by omega⟩, hcount.trans hlength, hfinal.1 hunterminated, hterminated⟩

theorem Changes.length_le {n : Nat} (h : Changes registry n text doc) :
    doc.splitLines.length ≤ text.splitLines.length := by
  rcases h.kept_or_lost with ⟨hcount, _⟩ | hlost
  · exact Nat.le_of_eq hcount
  · have hcount := hlost.length
    omega

theorem Pass.text_ne_of_losesLine {pass : Pass} (hrun : run registry text = .ok pass)
    (hloses : LosesLine registry text) : pass.text text ≠ text := by
  intro hsame
  have hlength := length_text_of_losesLine hrun hloses
  rw [hsame] at hlength
  omega

namespace Engine

theorem collect_of_ne {count : Nat} {draft : Draft}
    (h : draft.lines.length ≠ count + (if draft.stats.documentStart then 1 else 0)) :
    ∃ failure, collect text count draft = .error failure := by
  unfold collect
  rw [if_pos h]
  exact ⟨_, rfl⟩

theorem length_finished {ensureDocumentStart : Bool} {draft finished : Draft} {pass : Pass}
    (hrun : Pass.run registry doc = .ok pass) (hlines : draft.lines = pass.lines)
    (hunmarked : draft.stats.documentStart = false)
    (hfinished : (if ensureDocumentStart then draft.addMarker else draft) = finished) :
    finished.lines.length =
      doc.splitLines.length + (if finished.stats.documentStart then 1 else 0) := by
  rw [(Draft.lines_finished hfinished hunmarked).1, hlines, List.length_append,
    Pass.length_lines_run hrun]
  split <;> simp [Nat.add_comm]

theorem lost_of_lineCountMismatch {engine : Engine} {failure : Pass.Failure}
    {expected actual : Nat} (hrepair : engine.repair text = .error failure)
    (hfault : failure.fault = .lineCountMismatch expected actual) :
    expected = actual + 1 ∧ text.finalEnding = .missing ∧
      ∃ m l mid pass last, Changes engine.registry m text mid ∧
        Pass.run engine.registry mid = .ok pass ∧ Pass.LosesLine engine.registry mid ∧
        Changes engine.registry (l + 1) (pass.text mid) last ∧ Settled engine.registry last ∧
        m + l + 2 ≤ maxPasses := by
  obtain ⟨result, houtcome, hresult⟩ := exists_outcome engine text
  rw [hrepair] at hresult
  cases houtcome with
  | @broken n doc broken events _ _ hfails =>
    cases hresult
    obtain ⟨key, base, parent, parentBase, horder⟩ := Pass.isFrameOrder_of_error hfails
    rw [hfault] at horder
    cases horder
  | @settled n doc last draft hchanges hlt hrun hsettled hlast hlines hunmarked =>
    simp only at hresult
    generalize hfinished : (if engine.ensureDocumentStart then draft.addMarker else draft) =
      finished at hresult
    obtain ⟨hne, hmismatch⟩ := collect_error hresult.symm
    have hlength := length_finished hrun hlines hunmarked hfinished
    rw [hfault, Fault.lineCountMismatch.injEq] at hmismatch
    rcases hchanges.kept_or_lost with ⟨hcount, _⟩ | hlost
    · rw [hcount] at hlength
      exact absurd hlength hne
    · obtain ⟨m, l, mid, pass, hmid, hpass, hloses, hrest, hn⟩ := hlost.lost
      have hcount := hlost.length
      have hchanged : last.text doc ≠ doc := hlast.resolve_left (by omega)
      refine ⟨by omega, hlost.unterminated, m, l, mid, pass, last.text doc, hmid, hpass, hloses,
        hrest.trans (.single hrun hchanged), hsettled, by omega⟩
  | unstable _ _ _ =>
    cases hresult
    cases hfault

theorem exists_lineCountMismatch {engine : Engine} {m l : Nat} {mid last : Text} {pass : Pass}
    (hmid : Changes engine.registry m text mid) (hpass : Pass.run engine.registry mid = .ok pass)
    (hloses : Pass.LosesLine engine.registry mid)
    (hrest : Changes engine.registry (l + 1) (pass.text mid) last)
    (hsettled : Settled engine.registry last) (hle : m + l + 2 ≤ maxPasses) :
    ∃ failure expected actual, engine.repair text = .error failure ∧
      failure.fault = .lineCountMismatch expected actual := by
  have hlose : Changes engine.registry (m + 1) text (pass.text mid) :=
    hmid.trans (.single hpass (Pass.text_ne_of_losesLine hpass hloses))
  have hlast : Changes engine.registry (m + 1 + (l + 1)) text last := hlose.trans hrest
  obtain ⟨result, houtcome, hresult⟩ := exists_outcome engine text
  cases houtcome with
  | @broken n doc broken events hchanges _ hfails =>
    obtain ⟨_, hsame⟩ := hlast.eq_of_both_stop hchanges hsettled.stops (stops_of_error hfails)
    obtain ⟨settling, hrun, _⟩ := hsettled
    rw [hsame, hfails] at hrun
    cases hrun
  | @settled n doc settling draft hchanges hlt hrun hsettled' hchanged hlines hunmarked =>
    -- The draft has the lines of a pass after the one that loses a line.
    have hend : n = m + 1 + l := by
      obtain ⟨k, hk, hnext⟩ := hchanges.exists_next hrun
      obtain ⟨hsame, _⟩ := hlast.eq_of_both_stop hk hsettled.stops hsettled'.stops
      rcases hnext with ⟨hkn, hstays⟩ | ⟨hkn, _⟩
      · have hzero := hchanged.resolve_right (not_not_intro hstays)
        omega
      · omega
    have hless := (hlose.split hchanges (by omega)).length_le
    have hlength := Pass.length_text_of_losesLine hpass hloses
    have hmidLength := hmid.length_le
    simp only at hresult
    generalize hfinished : (if engine.ensureDocumentStart then draft.addMarker else draft) =
      finished at hresult
    have hcount := length_finished hrun hlines hunmarked hfinished
    obtain ⟨failure, hcollect⟩ := @collect_of_ne text text.splitLines.length finished (by omega)
    exact ⟨failure, _, _, hresult.trans hcollect, (collect_error hcollect).2⟩
  | @unstable doc settling events hchanges hrun hchanged =>
    obtain ⟨_, hsame⟩ := (hlast.split hchanges (by omega)).eq_of_stops hsettled.stops
    rw [hsame] at hrun hchanged
    exact absurd (hsettled.stops _ hrun) hchanged

/-- A repair is given up on for a missing line exactly if one of its passes loses a line, and
another pass changes the document after it before it settles. Then just that line is missing, and
the document ends without a terminator. -/
theorem lineCountMismatch_iff (engine : Engine) (text : Text) :
    ((∃ failure expected actual, engine.repair text = .error failure ∧
        failure.fault = .lineCountMismatch expected actual) ↔
      ∃ m l mid pass last, Changes engine.registry m text mid ∧
        Pass.run engine.registry mid = .ok pass ∧ Pass.LosesLine engine.registry mid ∧
        Changes engine.registry (l + 1) (pass.text mid) last ∧ Settled engine.registry last ∧
        m + l + 2 ≤ maxPasses) ∧
    ∀ failure expected actual, engine.repair text = .error failure →
      failure.fault = .lineCountMismatch expected actual →
        expected = actual + 1 ∧ text.getLast? ≠ some '\n' := by
  refine ⟨⟨?_, ?_⟩, ?_⟩
  · rintro ⟨failure, expected, actual, hrepair, hfault⟩
    exact (lost_of_lineCountMismatch hrepair hfault).2.2
  · rintro ⟨m, l, mid, pass, last, hmid, hpass, hloses, hrest, hsettled, hle⟩
    exact exists_lineCountMismatch hmid hpass hloses hrest hsettled hle
  · intro failure expected actual hrepair hfault
    obtain ⟨hone, hmissing, _⟩ := lost_of_lineCountMismatch hrepair hfault
    refine ⟨hone, fun hfeed => ?_⟩
    exact (Text.finalEnding_ne_missing_iff text).2 hfeed hmissing

/-- An attribute below an empty line at the end. The first pass lifts it over that line, and the
second one lifts the key that it left behind. -/
def liftedTwice : Text :=
  "tags:\n  when: y\n\n   register: z".toList

theorem gives_up_on_lines :
    ∃ failure, repair {} liftedTwice = .error failure ∧
      failure.fault = .lineCountMismatch 4 3 := by
  have hfault : (match repair {} liftedTwice with
      | .error failure => failure.fault == .lineCountMismatch 4 3
      | .ok _ => false) = true := by decide +kernel
  split at hfault
  · rename_i failure hrepair
    exact ⟨failure, hrepair, by simpa using hfault⟩
  · cases hfault

/-! ### Repairs that succeed -/

/-- If a pass over a document on the way loses a line, it is the one that settles the document,
unless the document before it has lost one. -/
theorem losesLine_of_reached {n m : Nat} {mid : Text} {pass : Pass}
    (h : Changes registry n text doc) (hrun : Pass.run registry doc = .ok pass)
    (hsettled : Settled registry (pass.text doc))
    (hcount : doc.splitLines.length = text.splitLines.length)
    (hmid : Changes registry m text mid) (hloses : Pass.LosesLine registry mid) :
    Pass.LosesLine registry doc := by
  rcases Nat.lt_or_ge n m with hlt | hle
  · have hafter := h.split hmid (Nat.le_of_lt hlt)
    obtain ⟨d, hd⟩ : ∃ d, m - n = d + 1 := ⟨m - n - 1, by omega⟩
    rw [hd] at hafter
    obtain ⟨_, hsame⟩ := (hafter.after hrun).eq_of_stops hsettled.stops
    obtain ⟨last, hlast, hstays⟩ := hsettled
    rw [hsame] at hloses
    exact absurd hstays (Pass.text_ne_of_losesLine hlast hloses)
  · have hbefore := hmid.split h hle
    generalize n - m = d at hbefore
    cases hbefore with
    | refl => exact hloses
    | cons hpass _ hrest =>
      have hlength := Pass.length_text_of_losesLine hpass hloses
      have hless := hrest.length_le
      have hmidLength := hmid.length_le
      omega

theorem lastEmpty_append_iff {above lines : List RawLine} (hne : above = [] ∨ lines ≠ []) :
    RawLine.LastEmpty (above ++ lines) ↔ RawLine.LastEmpty lines := by
  rcases List.eq_nil_or_concat' lines with rfl | ⟨init, last, rfl⟩
  · rw [hne.resolve_right (not_not_intro rfl), List.nil_append]
  · have hlast : ∀ {above : List RawLine},
        RawLine.LastEmpty (above ++ [last]) ↔ last.body = [] := by
      intro above
      constructor
      · rintro ⟨init', last', hsame, hbody⟩
        rw [(List.append_inj' hsame rfl).2 |> List.cons.inj |>.1]
        exact hbody
      · exact fun hbody => ⟨above, last, rfl, hbody⟩
    rw [← List.append_assoc, hlast, hlast]

/-- The pass that settles a document: a repair gives back its lines below those in `above`, the
marker or none. -/
structure LastPass (engine : Engine) (text : Text) (repair : Repair) (doc : Text) (pass : Pass)
    (above : List RawLine) : Prop where
  changes : ∃ n, Changes engine.registry n text doc
  run : Pass.run engine.registry doc = .ok pass
  settled : Settled engine.registry (pass.text doc)
  count : doc.splitLines.length = text.splitLines.length
  joined : repair.text = joinLines text (above ++ pass.rawLines)
  nonempty : above = [] ∨ pass.rawLines ≠ []
  feed : ∀ line ∈ above, '\n' ∉ line.body
  marker : above.length = if repair.stats.documentStart then 1 else 0

theorem exists_lastPass {engine : Engine} {repair : Repair} (h : engine.repair text = .ok repair) :
    ∃ doc pass above, LastPass engine text repair doc pass above := by
  obtain ⟨result, houtcome, hresult⟩ := exists_outcome engine text
  rw [h] at hresult
  cases houtcome with
  | broken _ _ _ => cases hresult
  | unstable _ _ _ => cases hresult
  | @settled n doc pass draft hchanges _ hrun hsettled _ hlines hunmarked =>
    simp only at hresult
    generalize hfinished : (if engine.ensureDocumentStart then draft.addMarker else draft) =
      finished at hresult
    obtain ⟨hcount, htext, _, hstats⟩ := collect_ok hresult.symm
    obtain ⟨hmarked, hne⟩ := Draft.lines_finished hfinished hunmarked
    rw [length_finished hrun hlines hunmarked hfinished] at hcount
    refine ⟨doc, pass, if repair.stats.documentStart then [Draft.marker.toRawLine] else [],
      ⟨n, hchanges⟩, hrun, hsettled, by omega, ?_, ?_, ?_, ?_⟩
    · rw [htext, hmarked, hlines, hstats, List.map_append]
      split <;> rfl
    · rw [hstats]
      by_cases hstart : finished.stats.documentStart = true
      · refine .inr fun hnil => hne hstart ?_
        rw [hlines]
        exact List.map_eq_nil_iff.1 hnil
      · exact .inl (if_neg hstart)
    · intro line hline
      split at hline
      · rw [List.mem_singleton] at hline
        rw [hline]
        decide
      · cases hline
    · split <;> rfl

namespace LastPass

variable {engine : Engine} {repair : Repair} {pass : Pass} {above : List RawLine}

theorem length_append (h : LastPass engine text repair doc pass above) :
    (above ++ pass.rawLines).length =
      text.splitLines.length + (if repair.stats.documentStart then 1 else 0) := by
  rw [List.length_append, h.marker, Pass.length_rawLines h.run, h.count, Nat.add_comm]

theorem feed_not_mem (h : LastPass engine text repair doc pass above) :
    ∀ line ∈ above ++ pass.rawLines, '\n' ∉ line.body := by
  intro line hline
  rcases List.mem_append.1 hline with hline | hline
  · exact h.feed line hline
  · exact Pass.feed_not_mem_rawLines h.run line hline

theorem finalEnding_iff (h : LastPass engine text repair doc pass above) :
    doc.finalEnding = .missing ↔ text.finalEnding = .missing := by
  obtain ⟨n, hchanges⟩ := h.changes
  rcases hchanges.kept_or_lost with ⟨_, hending⟩ | hlost
  · exact hending
  · have hless := hlost.length
    have hcount := h.count
    omega

theorem losesLine_iff (h : LastPass engine text repair doc pass above) :
    Pass.LosesLine engine.registry doc ↔
      RawLine.LastEmpty (above ++ pass.rawLines) ∧ text.finalEnding = .missing := by
  rw [Pass.losesLine_iff h.run, lastEmpty_append_iff h.nonempty, h.finalEnding_iff]

theorem exists_losesLine_iff (h : LastPass engine text repair doc pass above) :
    (∃ n mid, Changes engine.registry n text mid ∧ Pass.LosesLine engine.registry mid) ↔
      Pass.LosesLine engine.registry doc := by
  obtain ⟨n, hchanges⟩ := h.changes
  constructor
  · rintro ⟨m, mid, hmid, hloses⟩
    exact losesLine_of_reached hchanges h.run h.settled h.count hmid hloses
  · exact fun hloses => ⟨n, doc, hchanges, hloses⟩

theorem lost (h : LastPass engine text repair doc pass above)
    (hloses : Pass.LosesLine engine.registry doc) :
    repair.text.splitLines.length + 1 =
        text.splitLines.length + (if repair.stats.documentStart then 1 else 0) ∧
      text.finalEnding = .missing ∧ repair.text.finalEnding ≠ .missing := by
  obtain ⟨hempty, hmissing⟩ := h.losesLine_iff.1 hloses
  have hmore : 1 < (above ++ pass.rawLines).length := by
    have hone := hloses.one_lt_length h.run
    rw [List.length_append]
    omega
  rw [h.joined]
  refine ⟨?_, hmissing, ?_⟩
  · rw [Text.length_joinLines_of_lastEmpty hmissing h.feed_not_mem hempty, h.length_append]
  · exact Text.finalEnding_joinLines_of_lastEmpty hmissing h.feed_not_mem hempty hmore

theorem kept (h : LastPass engine text repair doc pass above)
    (hkeeps : ¬ Pass.LosesLine engine.registry doc) :
    repair.text.splitLines.length =
        text.splitLines.length + (if repair.stats.documentStart then 1 else 0) ∧
      (repair.text.finalEnding = .missing ↔ text.finalEnding = .missing) := by
  rw [h.losesLine_iff] at hkeeps
  have hjoined := Text.length_joinLines h.feed_not_mem hkeeps
  rw [h.joined]
  refine ⟨hjoined.trans h.length_append, ?_⟩
  by_cases hnil : above ++ pass.rawLines = []
  · have hlength := h.length_append
    rw [hnil] at hlength
    have hsplit := List.length_eq_zero_iff.1 (Nat.eq_zero_of_add_eq_zero_right hlength.symm)
    have htext : text = [] := by
      rw [← Text.flatMap_text_splitLines text, hsplit, List.flatMap_nil]
    rw [hnil, htext]
    rfl
  · exact Text.finalEnding_joinLines h.feed_not_mem hnil hjoined

end LastPass

/-- A repair keeps the number of lines, the marker apart, and whether the document is terminated,
unless one of its passes loses a line. Then that line is missing, and the document, which was not
terminated, is. A document that is terminated keeps both. -/
theorem length_lines_repair_iff (engine : Engine) (text : Text) (repair : Repair)
    (h : engine.repair text = .ok repair) :
    let marker := if repair.stats.documentStart then 1 else 0
    let keeps := repair.text.lines.length = text.lines.length + marker ∧
      (repair.text.getLast? = some '\n' ↔ text.getLast? = some '\n')
    let loses := ∃ n doc, Changes engine.registry n text doc ∧ Pass.LosesLine engine.registry doc
    (keeps ↔ ¬ loses) ∧
      (loses → repair.text.lines.length + 1 = text.lines.length + marker ∧
        text.getLast? ≠ some '\n' ∧ repair.text.getLast? = some '\n') ∧
      (text.getLast? = some '\n' → keeps) := by
  intro marker keeps loses
  obtain ⟨doc, pass, above, hlast⟩ := exists_lastPass h
  have hlines : ∀ t : Text, t.lines.length = t.splitLines.length := fun t => List.length_map _
  have hlost : loses → repair.text.lines.length + 1 = text.lines.length + marker ∧
      text.getLast? ≠ some '\n' ∧ repair.text.getLast? = some '\n' := by
    intro hloses
    obtain ⟨hcount, hmissing, hended⟩ := hlast.lost (hlast.exists_losesLine_iff.1 hloses)
    rw [hlines, hlines, Ne, ← Text.finalEnding_ne_missing_iff, ← Text.finalEnding_ne_missing_iff]
    exact ⟨hcount, not_not_intro hmissing, hended⟩
  have hkept : ¬ loses → keeps := by
    intro hkeeps
    obtain ⟨hcount, hending⟩ := hlast.kept fun hdoc => hkeeps (hlast.exists_losesLine_iff.2 hdoc)
    refine ⟨?_, ?_⟩
    · rw [hlines, hlines]
      exact hcount
    · rw [← Text.finalEnding_ne_missing_iff, ← Text.finalEnding_ne_missing_iff]
      exact not_congr hending
  refine ⟨⟨?_, hkept⟩, hlost, ?_⟩
  · rintro ⟨hsame, _⟩ hloses
    have hless := (hlost hloses).1
    omega
  · intro hterminated
    refine hkept fun hloses => ?_
    exact (hlost hloses).2.1 hterminated

theorem length_lines_repair_nudged :
    ∃ repaired, repair { ensureDocumentStart := true } nudged = .ok repaired ∧
      repaired.stats.documentStart = true ∧ repaired.stats.relocated = 1 ∧
      repaired.text.lines.length = nudged.lines.length + 1 ∧
      repaired.text.getLast? = some '\n' := by
  have hok : (repair { ensureDocumentStart := true } nudged).toOption.any fun repaired =>
      repaired.stats.documentStart && repaired.stats.relocated == 1 := by decide +kernel
  cases hrepair : repair { ensureDocumentStart := true } nudged with
  | error failure => simp [hrepair, Except.toOption] at hok
  | ok repaired =>
    simp only [hrepair, Except.toOption, Option.any_some, Bool.and_eq_true, beq_iff_eq] at hok
    obtain ⟨hmarked, hrelocated⟩ := hok
    have hterminated : nudged.getLast? = some '\n' := by decide
    obtain ⟨_, _, hkeeps⟩ :=
      length_lines_repair_iff { ensureDocumentStart := true } nudged repaired hrepair
    obtain ⟨hlength, hfeed⟩ := hkeeps hterminated
    rw [hmarked] at hlength
    exact ⟨repaired, rfl, hmarked, hrelocated, hlength, hfeed.2 hterminated⟩

/-- A task whose last attribute, written too deep, stands below an empty line and ends the
document without a terminator. -/
def belowEmptyLine : Text :=
  "tasks:\n  - name: t\n    tags:\n      - a\n\n      register: r".toList

theorem loses_last_line :
    ∃ repaired, repair {} belowEmptyLine = .ok repaired ∧
      repaired.text.lines.length + 1 = belowEmptyLine.lines.length ∧
      belowEmptyLine.getLast? ≠ some '\n' ∧ repaired.text.getLast? = some '\n' := by
  have hok : (repair {} belowEmptyLine).toOption.any fun repaired =>
      repaired.text.lines.length + 1 == belowEmptyLine.lines.length &&
        belowEmptyLine.getLast? != some '\n' && repaired.text.getLast? == some '\n' := by
    decide +kernel
  cases hrepair : repair {} belowEmptyLine with
  | error failure => simp [hrepair, Except.toOption] at hok
  | ok repaired =>
    simp only [hrepair, Except.toOption, Option.any_some, Bool.and_eq_true, beq_iff_eq,
      bne_iff_ne] at hok
    exact ⟨repaired, rfl, hok.1.1, hok.1.2, hok.2⟩

end Engine
end Reindent
