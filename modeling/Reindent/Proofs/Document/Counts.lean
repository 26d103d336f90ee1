import Reindent.Proofs.Document.Idempotence
import Reindent.Proofs.Document.LostLine
import Reindent.Proofs.Pass.Counted

/-!
# Reindent.Proofs.Document.Counts

Passes that count nothing, and documents that stay as they are.

* `Pass.Trades`   — the document stays as it is although lines are counted: a line is lifted out and
  one that reads the same takes its place.
* `text_eq_self_iff` — a pass leaves the document as it is if it counts nothing, or trades.
* `changed_iff`   — a repair reports a change unless its first pass leaves the document as it is.
* `counts_iff`    — what is counted tells what has changed, except after a trade.
-/

namespace Reindent
namespace Pass

variable {registry : Registry} {text : Text} {pass : Pass}

/-- The document stays as it is although lines are counted. The first of them is lifted out, and a
line from below it that reads the same, up to carriage returns at the end, is written in its
place. -/
structure Trades (registry : Registry) (text : Text) (pass : Pass) : Prop where
  same : pass.text text = text
  traded : ∃ before line after other, trailOf registry text = before ++ line :: after ∧
    (∀ above ∈ before, above.isCounted registry = false) ∧ line.isRelocated registry = true ∧
    other ∈ after ∧ pass.lines[before.length]? = some (other.out registry) ∧
    Text.core (other.out registry).body = Text.core line.input.line.text

/-! ### Nothing is counted -/

theorem Visit.out_of_not_isCounted {visit : Visit} (hread : visit.input.line.IsRead)
    (h : visit.isCounted registry = false) :
    (visit.out registry).moved = false ∧
      (visit.out registry).toRawLine = ⟨visit.input.line.text, visit.input.ending⟩ := by
  rw [isCounted, Bool.or_eq_false_iff] at h
  obtain ⟨hstays, hindent⟩ := h
  have hcolumn : visit.column registry = visit.input.line.indent := by
    simpa [isReindented, hstays] using hindent
  refine ⟨hstays, ?_⟩
  rw [out, hcolumn, hread.spaces_append_content]

theorem unmoved_of_forall {lines : List OutLine} (h : ∀ line ∈ lines, line.moved = false) :
    unmoved lines = lines := by
  rw [unmoved, List.filter_eq_self]
  intro line hline
  rw [h line hline]
  rfl

theorem text_of_not_isCounted (h : run registry text = .ok pass)
    (hnone : ∀ visit ∈ trailOf registry text, visit.isCounted registry = false) :
    pass.text text = text := by
  have hrearranges := rearranges_run h
  have houts : ∀ visit ∈ trailOf registry text, (visit.out registry).moved = false ∧
      (visit.out registry).toRawLine = ⟨visit.input.line.text, visit.input.ending⟩ :=
    fun visit hvisit =>
      Visit.out_of_not_isCounted (isRead_of_mem_trailOf hvisit) (hnone visit hvisit)
  have hstays : ∀ line ∈ (trailOf registry text).map (Visit.out registry), line.moved = false := by
    intro line hline
    obtain ⟨visit, hvisit, rfl⟩ := List.mem_map.1 hline
    exact (houts visit hvisit).1
  have hlines := hrearranges.unmoved
  rw [unmoved_of_forall hstays,
    unmoved_of_forall fun line hline => hstays line (hrearranges.perm.subset hline)] at hlines
  have hraw : pass.rawLines = text.splitLines := by
    rw [rawLines, hlines, ← InputLine.map_raw_ofLines 1 text.splitLines, ← hrearranges.inputs,
      List.map_map, List.map_map]
    exact List.map_congr_left fun visit hvisit => (houts visit hvisit).2
  have hjoined : pass.text text = joinLines text pass.rawLines := rfl
  rw [hjoined, hraw, Text.joinLines_splitLines]

/-! ### The document stays as it is -/

theorem next_of_unmoved {line next : OutLine} {below rest : List OutLine}
    (h : unmoved (line :: below) = unmoved (next :: rest)) (hnext : next.moved = false) :
    line = next ∨ (line.moved = true ∧ next ∈ below) := by
  have hcons : unmoved (next :: rest) = next :: unmoved rest := by simp [unmoved, hnext]
  cases hmoved : line.moved with
  | false =>
    have hline : unmoved (line :: below) = line :: unmoved below := by simp [unmoved, hmoved]
    rw [hline, hcons, List.cons.injEq] at h
    exact .inl h.1
  | true =>
    have hline : unmoved (line :: below) = unmoved below := by simp [unmoved, hmoved]
    rw [hline, hcons] at h
    have hmem : next ∈ unmoved below := h ▸ List.mem_cons_self
    exact .inr ⟨rfl, (List.mem_filter.1 hmem).1⟩

namespace Rearranges

variable (h : pass.Rearranges registry text) {before after : List Visit} {visit : Visit}
  (htrail : trailOf registry text = before ++ visit :: after)
include h htrail

theorem core_of_keeps (hkeeps : pass.Keeps text) {above below : List OutLine} {line : OutLine}
    (hlength : above.length = before.length) (hlines : pass.lines = above ++ line :: below) :
    Text.core line.body = Text.core visit.input.line.text := by
  have htexts : text.lines = (trailOf registry text).map fun visit => visit.input.line.text := by
    rw [Text.lines, ← InputLine.map_raw_ofLines 1 text.splitLines, ← h.inputs, List.map_map,
      List.map_map]
    rfl
  rw [Keeps, htexts, hlines, htrail] at hkeeps
  simp only [List.map_append, List.map_cons] at hkeeps
  have htails := (List.append_inj hkeeps (by simpa using hlength)).2
  exact (List.cons.inj htails).1

/-- In a document that stays as it is, no line is lifted over one that stays: that could only be a
blank line or a comment, and those are not lifted. -/
theorem not_moved_above (hkeeps : pass.Keeps text) {above below : List OutLine} {line : OutLine}
    (hlength : above.length = before.length) (hlines : pass.lines = above ++ line :: below)
    (hbefore : ∀ above ∈ before, above.isRelocated registry = false)
    (hstays : visit.isRelocated registry = false) (hmoved : line.moved = true) :
    visit.out registry ∉ below := by
  intro hbelow
  have hcore := h.core_of_keeps htrail hkeeps hlength hlines
  have hline : line ∈ pass.lines := by
    rw [hlines]
    simp
  obtain ⟨lifted, hlifted, rfl⟩ := List.mem_map.1 (h.perm.subset hline)
  have hrelocated : lifted.isRelocated registry = true := hmoved
  have hafter : lifted ∈ after := by
    rw [htrail, List.mem_append, List.mem_cons] at hlifted
    rcases hlifted with hmem | rfl | hmem
    · rw [hbefore lifted hmem] at hrelocated
      cases hrelocated
    · rw [hstays] at hrelocated
      cases hrelocated
    · exact hmem
  have hnumber := h.number_lt htrail lifted hafter
  have htrivia : (visit.out registry).trivia = true := by
    have horder := h.order
    rw [hlines, List.pairwise_append, List.pairwise_cons] at horder
    have hfollows := horder.2.1.1 _ hbelow hmoved hstays
    cases htrivia : (visit.out registry).trivia with
    | true => rfl
    | false => exact absurd (hfollows htrivia) (Nat.lt_asymm hnumber)
  have hline : visit.input.line.isTrivia = true := by
    simp only [Visit.out, Bool.and_eq_true] at htrivia
    exact htrivia.2
  have hread : ∀ visit ∈ trailOf registry text, visit.input.line.IsRead :=
    fun _ hvisit => isRead_of_mem_trailOf hvisit
  have hvisit : visit ∈ trailOf registry text := by
    rw [htrail]
    simp
  have hstructural := (Visit.isStructural_iff.1 (Visit.isRelocated_iff.1 hrelocated).1).2
  -- The two lines read the same, wherever they stand.
  have htrim : Text.trim lifted.input.line.text = Text.trim visit.input.line.text :=
    calc Text.trim lifted.input.line.text
      _ = Text.trim (lifted.out registry).body :=
        ((Visit.writes_out registry lifted).trim_body (hread lifted hlifted)).symm
      _ = Text.trim (Text.core visit.input.line.text) := by rw [← hcore, Text.trim_core]
      _ = Text.trim visit.input.line.text := Text.trim_core _
  rw [(hread lifted hlifted).not_isStructural_of_trim (hread visit hvisit) hline htrim]
    at hstructural
  cases hstructural

end Rearranges

/-- As long as nothing counts, a document that stays as it is is written line by line. -/
theorem Rearranges.lines_eq_append (h : pass.Rearranges registry text) (hkeeps : pass.Keeps text)
    {before after : List Visit} (htrail : trailOf registry text = before ++ after)
    (hbefore : ∀ above ∈ before, above.isRelocated registry = false) :
    ∃ below, pass.lines = before.map (Visit.out registry) ++ below := by
  induction before using List.reverseRecOn generalizing after with
  | nil => exact ⟨pass.lines, rfl⟩
  | append_singleton before visit ih =>
    rw [List.append_assoc, List.singleton_append] at htrail
    obtain ⟨hbefore, hvisit⟩ := List.forall_mem_append.1 hbefore
    have hstays := hvisit visit (List.mem_singleton.2 rfl)
    obtain ⟨written, hlines⟩ := ih htrail hbefore
    obtain ⟨line, below, rfl⟩ : ∃ line below, written = line :: below := by
      cases written with
      | nil =>
        have hlength := h.perm.length_eq
        rw [hlines, htrail] at hlength
        simp at hlength
      | cons line below => exact ⟨line, below, rfl⟩
    have hunmoved := h.unmoved
    rw [hlines, htrail, List.map_append, unmoved_append, unmoved_append, List.append_cancel_left_eq,
      List.map_cons] at hunmoved
    rcases next_of_unmoved hunmoved hstays with rfl | ⟨hmoved, hbelow⟩
    · exact ⟨below, by rw [hlines]; simp⟩
    · exact absurd hbelow (h.not_moved_above htrail hkeeps (List.length_map _) hlines hbefore hstays
        hmoved)

theorem trades_of_text_eq (h : run registry text = .ok pass) (hsame : pass.text text = text)
    (hcounted : ¬ ∀ visit ∈ trailOf registry text, visit.isCounted registry = false) :
    pass.Trades registry text := by
  have hrearranges := rearranges_run h
  have hkeeps := keeps_of_text_eq h hsame
  obtain ⟨line, hfirst⟩ : ∃ line,
      (trailOf registry text).find? (Visit.isCounted registry) = some line := by
    rw [← Option.isSome_iff_exists, List.find?_isSome]
    simpa using hcounted
  obtain ⟨hline, before, after, htrail, hbefore⟩ := List.find?_eq_some_iff_append.1 hfirst
  have huncounted : ∀ above ∈ before, above.isCounted registry = false :=
    fun above habove => by simpa using hbefore above habove
  have hunlifted : ∀ above ∈ before, above.isRelocated registry = false :=
    fun above habove => (Bool.or_eq_false_iff.1 (huncounted above habove)).1
  have hcolumn := column_ne_of_first htrail huncounted hline
  have hread : line.input.line.IsRead := isRead_of_mem_trailOf (List.mem_of_find?_eq_some hfirst)
  obtain ⟨written, hlines⟩ := hrearranges.lines_eq_append hkeeps htrail hunlifted
  obtain ⟨first, below, rfl⟩ : ∃ first below, written = first :: below := by
    cases written with
    | nil =>
      have hlength := hrearranges.perm.length_eq
      rw [hlines, htrail] at hlength
      simp at hlength
    | cons first below => exact ⟨first, below, rfl⟩
  have hcore := hrearranges.core_of_keeps htrail hkeeps (List.length_map _) hlines
  -- The line itself is written elsewhere, since its column differs.
  have hother : first ≠ line.out registry := by
    rintro rfl
    have hindent := congrArg Text.indent hcore
    rw [Text.indent_core, Text.indent_core, ← hread.indent_eq] at hindent
    exact hcolumn ((hread.indent_spaces_content _).symm.trans hindent)
  have hrelocated : line.isRelocated registry = true := by
    cases hstays : line.isRelocated registry with
    | true => rfl
    | false =>
      have hunmoved := hrearranges.unmoved
      rw [hlines, htrail, List.map_append, unmoved_append, unmoved_append,
        List.append_cancel_left_eq, List.map_cons] at hunmoved
      rcases next_of_unmoved hunmoved hstays with hsame | ⟨hmoved, hbelow⟩
      · exact absurd hsame hother
      · exact absurd hbelow (hrearranges.not_moved_above htrail hkeeps (List.length_map _) hlines
          hunlifted hstays hmoved)
  have hmem : first ∈ pass.lines := by
    rw [hlines]
    simp
  obtain ⟨other, hvisit, rfl⟩ := List.mem_map.1 (hrearranges.perm.subset hmem)
  refine ⟨hsame, before, line, after, other, htrail, huncounted, hrelocated, ?_, ?_, hcore⟩
  · rw [htrail, List.mem_append, List.mem_cons] at hvisit
    rcases hvisit with habove | rfl | hbelow
    · have hnodup := (nodup_number_run h)
      rw [hlines, List.map_append, List.nodup_append] at hnodup
      exact absurd rfl (hnodup.2.2 _ (List.mem_map_of_mem (List.mem_map_of_mem habove)) _
        (List.mem_map_of_mem List.mem_cons_self))
    · exact absurd rfl hother
    · exact hbelow
  · rw [hlines, List.getElem?_append_right (by simp)]
    simp

theorem Trades.touched_ne_zero (h : run registry text = .ok pass)
    (htrades : pass.Trades registry text) : Draft.touched pass ≠ 0 := by
  obtain ⟨before, line, after, _, htrail, _, hrelocated, _⟩ := htrades.traded
  rw [Ne, touched_eq_zero_iff h]
  intro hnone
  have hcounted : line.isCounted registry = false := by
    refine hnone line ?_
    rw [htrail]
    simp
  rw [Visit.isCounted, hrelocated] at hcounted
  cases hcounted

theorem text_eq_self_iff (h : run registry text = .ok pass) :
    pass.text text = text ↔ Draft.touched pass = 0 ∨ pass.Trades registry text := by
  rw [touched_eq_zero_iff h]
  constructor
  · intro hsame
    by_cases hnone : ∀ visit ∈ trailOf registry text, visit.isCounted registry = false
    · exact .inl hnone
    · exact .inr (trades_of_text_eq h hsame hnone)
  · rintro (hnone | htrades)
    · exact text_of_not_isCounted h hnone
    · exact htrades.same

end Pass

/-! ### Documents -/

namespace Draft

/-- How many lines the passes have reindented and lifted out. -/
def count (draft : Draft) : Nat :=
  draft.stats.reindented + draft.stats.relocated

theorem count_le_settle {registry : Registry} {remaining : Nat} {draft settled : Draft}
    (h : draft.settle registry remaining = .ok settled) : draft.count ≤ settled.count := by
  induction remaining generalizing draft with
  | zero =>
    obtain ⟨pass, _, ⟨_, rfl⟩ | ⟨_, left, hleft, _⟩⟩ := settle_ok h
    · exact Nat.le_refl _
    · cases hleft
  | succ remaining ih =>
    obtain ⟨pass, _, ⟨_, rfl⟩ | ⟨_, left, hleft, hsettle⟩⟩ := settle_ok h
    · exact Nat.le_refl _
    · cases hleft
      have hle := ih hsettle
      simp only [count, advance] at hle ⊢
      omega

theorem count_finished {ensureDocumentStart : Bool} {draft : Draft} :
    (if ensureDocumentStart then draft.addMarker else draft).count = draft.count := by
  split
  · rw [addMarker]
    split <;> rfl
  · rfl

end Draft

namespace Engine

variable {engine : Engine} {text : Text} {repaired : Repair} {pass : Pass}

theorem changed_iff (h : engine.repair text = .ok repaired)
    (hrun : Pass.run engine.registry text = .ok pass) :
    repaired.changed = true ↔ pass.text text ≠ text ∨ repaired.stats.documentStart = true := by
  obtain ⟨_, _, _, _, hcollect⟩ := repair_ok h
  obtain ⟨_, _, hchanged, _⟩ := collect_ok hcollect
  rw [hchanged, bne_iff_ne]
  constructor
  · intro hother
    by_contra hsame
    rw [not_or, not_not, Bool.not_eq_true] at hsame
    obtain ⟨hsettled, hunmarked⟩ := hsame
    obtain ⟨draft, hlines, hstats, hrepair⟩ := repair_of_settled hrun hsettled
    rw [h] at hrepair
    obtain ⟨_, htext, _, hstats'⟩ := collect_ok hrepair.symm
    have hplain : draft.stats.documentStart = false := by
      rw [hstats, Pass.documentStart_runLines hrun]
    generalize hfinished : (if engine.ensureDocumentStart then draft.addMarker else draft) = finished
      at htext hstats'
    have hadded := (Draft.lines_finished hfinished hplain).1
    rw [← hstats', hunmarked, hlines] at hadded
    rw [hadded] at htext
    exact hother (htext.trans hsettled)
  · rintro (hother | hmarked) hsame
    · obtain ⟨pass', hrun', hsettled⟩ : Settled engine.registry text :=
        settled_of_leaves ⟨repaired, h, hsame, by rw [hchanged, hsame, bne_self_eq_false]⟩
      obtain rfl : pass' = pass := Except.ok.inj (hrun'.symm.trans hrun)
      exact hother hsettled
    · rw [unmarked_of_text_eq h hsame] at hmarked
      cases hmarked

theorem count_eq_zero_iff (h : engine.repair text = .ok repaired)
    (hrun : Pass.run engine.registry text = .ok pass) :
    repaired.stats.reindented + repaired.stats.relocated = 0 ↔ Draft.touched pass = 0 := by
  obtain ⟨pass', settled, hpass, hsettle, hcollect⟩ := repair_ok h
  obtain rfl : pass' = pass := Except.ok.inj (hpass.symm.trans hrun)
  obtain ⟨_, _, _, hstats⟩ := collect_ok hcollect
  have hcount : repaired.stats.reindented + repaired.stats.relocated = settled.count := by
    rw [hstats]
    exact Draft.count_finished
  have hle : Draft.touched pass' ≤ settled.count := Draft.count_le_settle hsettle
  rw [hcount]
  constructor
  · omega
  · intro hnone
    have hsame := (Pass.text_eq_self_iff hrun).2 (.inl hnone)
    have hbody : (Draft.ofPass pass' text).body = text := hsame
    obtain ⟨again, hagain, hsettled⟩ := Draft.settle_ok hsettle
    rw [hbody] at hagain hsettled
    obtain rfl : again = pass' := Except.ok.inj (hagain.symm.trans hrun)
    rcases hsettled with ⟨_, rfl⟩ | ⟨hother, _⟩
    · exact hnone
    · exact absurd hsame hother

/-- A pass leaves the document as it is exactly if it counts nothing, or trades. A repair counts
lines, or has added a marker, exactly if it changes the document, unless its first pass trades and
no marker is added. -/
theorem counts_iff (engine : Engine) (text : Text) :
    (∀ pass, Pass.run engine.registry text = .ok pass →
      (pass.text text = text ↔
        pass.stats.reindented = 0 ∧ pass.stats.relocated = 0 ∨
          pass.Trades engine.registry text)) ∧
    ∀ repaired, engine.repair text = .ok repaired →
      ∃ pass, Pass.run engine.registry text = .ok pass ∧
        ((repaired.changed = true ↔
            0 < repaired.stats.reindented + repaired.stats.relocated ∨
              repaired.stats.documentStart = true) ↔
          ¬ pass.Trades engine.registry text ∨ repaired.stats.documentStart = true) := by
  constructor
  · intro pass hrun
    rw [Pass.text_eq_self_iff hrun, Draft.touched, Nat.add_eq_zero_iff]
  · intro repaired hrepair
    obtain ⟨pass, _, hrun, _⟩ := repair_ok hrepair
    refine ⟨pass, hrun, ?_⟩
    rw [changed_iff hrepair hrun, Nat.pos_iff_ne_zero, Ne, Ne, count_eq_zero_iff hrepair hrun,
      Pass.text_eq_self_iff hrun]
    have hcounts := Pass.Trades.touched_ne_zero hrun
    tauto

theorem counts_iff_nudged :
    ∃ repaired, repair {} nudged = .ok repaired ∧ repaired.changed = true ∧
      0 < repaired.stats.reindented + repaired.stats.relocated := by
  have hfacts : (repair {} nudged).toOption.any (fun repaired =>
      repaired.changed && !repaired.stats.documentStart) = true := by decide +kernel
  have hmoves : (Pass.run (Engine.registry {}) nudged).toOption.any (fun pass =>
      pass.text nudged != nudged) = true := by decide +kernel
  cases hrepair : repair {} nudged with
  | error failure => simp [hrepair, Except.toOption] at hfacts
  | ok repaired =>
    simp only [hrepair, Except.toOption, Option.any_some, Bool.and_eq_true,
      Bool.not_eq_true'] at hfacts
    obtain ⟨pass, hrun, hiff⟩ := (counts_iff {} nudged).2 repaired hrepair
    simp only [hrun, Except.toOption, Option.any_some, bne_iff_ne] at hmoves
    have hcounted := (hiff.2 (.inl fun htrades => hmoves htrades.same)).1 hfacts.1
    refine ⟨repaired, rfl, hfacts.1, ?_⟩
    simpa [hfacts.2] using hcounted

/-- An attribute is lifted out of the one list, and the one that moves out of the other list takes
its place. -/
def traded : Text :=
  ("tasks:\n  -    name: x\n       tags:\n   - tags:\n       retries: 1\n" ++
    "     retries: 1\n").toList

/-- A document stays as it is although two of its lines are counted. -/
theorem counts_and_stays :
    ∃ pass repaired, Pass.run .standard traded = .ok pass ∧ pass.text traded = traded ∧
      pass.stats.reindented = 1 ∧ pass.stats.relocated = 1 ∧
      repair {} traded = .ok repaired ∧ repaired.changed = false ∧
      repaired.stats.reindented = 1 ∧ repaired.stats.relocated = 1 ∧
      repaired.stats.documentStart = false := by
  have hpass : (Pass.run .standard traded).toOption.any (fun pass =>
      pass.text traded == traded && pass.stats.reindented == 1 && pass.stats.relocated == 1) =
        true := by decide +kernel
  have hrepair : (repair {} traded).toOption.any (fun repaired =>
      !repaired.changed && repaired.stats.reindented == 1 && repaired.stats.relocated == 1 &&
        !repaired.stats.documentStart) = true := by decide +kernel
  cases hrun : Pass.run .standard traded with
  | error failure => simp [hrun, Except.toOption] at hpass
  | ok pass =>
    cases hrepaired : repair {} traded with
    | error failure => simp [hrepaired, Except.toOption] at hrepair
    | ok repaired =>
      simp only [hrun, Except.toOption, Option.any_some, Bool.and_eq_true, beq_iff_eq] at hpass
      simp only [hrepaired, Except.toOption, Option.any_some, Bool.and_eq_true, beq_iff_eq,
        Bool.not_eq_true'] at hrepair
      obtain ⟨⟨hsame, hreindented⟩, hrelocated⟩ := hpass
      obtain ⟨⟨⟨hchanged, hreindented'⟩, hrelocated'⟩, hunmarked⟩ := hrepair
      exact ⟨pass, repaired, rfl, hsame, hreindented, hrelocated, rfl, hchanged, hreindented',
        hrelocated', hunmarked⟩

end Engine
end Reindent
