import Reindent.Proofs.Text.Core

/-!
# Reindent.Proofs.Text.Endings

The conventions of a document, told from its lines.

* `containsCrlf_iff`  — a document uses `\r\n` if one of its lines does.
* `finalEnding_eq`    — it ends as its last line does.
* `missing_iff`       — a line without a terminator is the last one.
* `getElem?_splitLines_joinLines` — the lines of a document that has been joined, one by one.
* `splitLines_joinLines_concat` — joining loses an empty last line that gets no terminator, and no
  other.
-/

namespace Reindent

open RawLine

namespace Text

theorem containsCrlf_of_not_mem {body : Text} (h : '\n' ∉ body) : containsCrlf body = false := by
  induction body with
  | nil => rfl
  | cons c body ih =>
    have hbody : '\n' ∉ body := fun m => h (List.mem_cons_of_mem _ m)
    cases body with
    | nil => simp [containsCrlf]
    | cons d body =>
      have hd : d ≠ '\n' := fun e => hbody (e ▸ List.mem_cons_self)
      rw [containsCrlf, ih hbody]
      simp [hd]

theorem containsCrlf_append_feed {body : Text} (h : '\n' ∉ body) (rest : Text) :
    containsCrlf (body ++ '\n' :: rest) = ((body.getLast? == some '\r') || containsCrlf rest) := by
  induction body with
  | nil => simp [containsCrlf]
  | cons c body ih =>
    have hbody : '\n' ∉ body := fun m => h (List.mem_cons_of_mem _ m)
    cases body with
    | nil =>
      by_cases hc : c = '\r'
      · subst hc
        simp [containsCrlf]
      · simp [containsCrlf, hc]
    | cons d body =>
      have hd : d ≠ '\n' := fun e => hbody (e ▸ List.mem_cons_self)
      rw [List.cons_append, List.cons_append, containsCrlf, ← List.cons_append, ih hbody]
      · simp
      · simp [hd]

/-- Lines as they come out of a document. -/
def Split (lines : List RawLine) : Prop :=
  Closed lines ∧ ∀ line ∈ lines, line.reread = line ∧ line.text ≠ []

theorem split_splitLines (t : Text) : Split (splitLines t) :=
  ⟨closed_splitLines t, fun _ h => ⟨reread_of_mem_splitLines h, text_ne_nil_of_mem_splitLines h⟩⟩

theorem body_getLast?_of_lf {line : RawLine} (hread : line.reread = line) (h : line.ending = .lf) :
    line.body.getLast? ≠ some '\r' := by
  obtain ⟨body, ending⟩ := line
  cases h
  rcases terminated_cases body with ⟨init, _, hterminated⟩ | ⟨hlast, _⟩
  · rw [reread, hterminated] at hread
    cases hread
  · exact hlast

theorem containsCrlf_text_append {line : RawLine} (hfeed : '\n' ∉ line.body)
    (hread : line.reread = line) (hending : line.ending ≠ .missing) (rest : Text) :
    containsCrlf (line.text ++ rest) = (decide (line.ending = .crlf) || containsCrlf rest) := by
  cases h : line.ending with
  | missing => exact absurd h hending
  | lf =>
    have hlast := body_getLast?_of_lf hread h
    rw [RawLine.text, h, Ending.text, List.append_assoc]
    refine (containsCrlf_append_feed hfeed rest).trans ?_
    rw [beq_eq_false_iff_ne.2 hlast]
    rfl
  | crlf =>
    have hreturn : '\n' ∉ line.body ++ ['\r'] := by
      simpa using hfeed
    have happend := containsCrlf_append_feed hreturn rest
    rw [RawLine.text, h, Ending.text]
    simpa using happend

theorem containsCrlf_flatMap {lines : List RawLine} (h : Split lines) :
    containsCrlf (lines.flatMap RawLine.text) =
      lines.any fun line => decide (line.ending = .crlf) := by
  obtain ⟨hclosed, hread⟩ := h
  induction hclosed with
  | nil => rfl
  | @last line hfeed =>
    by_cases hending : line.ending = .missing
    · have htext : line.text = line.body := by simp [RawLine.text, hending, Ending.text]
      simp [htext, containsCrlf_of_not_mem hfeed, hending]
    · have hline := containsCrlf_text_append hfeed (hread line List.mem_cons_self).1 hending []
      simpa [containsCrlf] using hline
  | @cons line rest hfeed hending _ ih =>
    rw [List.flatMap_cons,
      containsCrlf_text_append hfeed (hread line List.mem_cons_self).1 hending, List.any_cons,
      ih fun l hl => hread l (List.mem_cons_of_mem _ hl)]

theorem containsCrlf_iff (t : Text) :
    t.containsCrlf = true ↔ ∃ line ∈ t.splitLines, line.ending = .crlf := by
  have h := containsCrlf_flatMap (split_splitLines t)
  rw [flatMap_text_splitLines] at h
  simp [h, List.any_eq_true]

/-! ### The last line -/

theorem finalEnding_append {s rest : Text} (hrest : rest ≠ []) :
    finalEnding (s ++ '\n' :: rest) = finalEnding rest := by
  have hne : rest.reverse ≠ [] := by simpa using hrest
  obtain ⟨c, tail, hreverse⟩ := List.exists_cons_of_ne_nil hne
  cases tail with
  | nil =>
    simp only [finalEnding, List.reverse_append, List.reverse_cons, hreverse]
    by_cases hc : c = '\n'
    · subst hc
      simp
    · simp [hc]
  | cons d tail =>
    simp only [finalEnding, List.reverse_append, List.reverse_cons, hreverse]
    by_cases hc : c = '\n'
    · subst hc
      by_cases hd : d = '\r'
      · subst hd
        simp
      · simp [hd]
    · simp [hc]

theorem text_eq_append_feed {line : RawLine} (h : line.ending ≠ .missing) :
    ∃ init, line.text = init ++ ['\n'] := by
  cases hending : line.ending with
  | missing => exact absurd hending h
  | lf => exact ⟨line.body, by rw [RawLine.text, hending]; rfl⟩
  | crlf => exact ⟨line.body ++ ['\r'], by rw [RawLine.text, hending]; simp [Ending.text]⟩

theorem finalEnding_text {line : RawLine} (hfeed : '\n' ∉ line.body) (hread : line.reread = line) :
    finalEnding line.text = line.ending := by
  cases h : line.ending with
  | missing =>
    have htext : line.text = line.body := by simp [RawLine.text, h, Ending.text]
    rw [htext, finalEnding]
    cases hreverse : line.body.reverse with
    | nil => rfl
    | cons c tail =>
      have hc : c ≠ '\n' := by
        intro hc
        refine hfeed (List.mem_reverse.1 ?_)
        rw [hreverse, hc]
        exact List.mem_cons_self
      simp [hc]
  | lf =>
    have hlast := body_getLast?_of_lf hread h
    rw [RawLine.text, h, Ending.text, finalEnding, List.reverse_append]
    rw [List.getLast?_eq_head?_reverse] at hlast
    cases hreverse : line.body.reverse with
    | nil => rfl
    | cons c tail =>
      rw [hreverse, List.head?_cons, ne_eq, Option.some.injEq] at hlast
      simp [hlast]
  | crlf =>
    rw [RawLine.text, h, Ending.text, finalEnding, List.reverse_append]
    rfl

theorem finalEnding_flatMap {lines : List RawLine} (h : Split lines) :
    finalEnding (lines.flatMap RawLine.text) =
      (lines.getLast?.map RawLine.ending).getD .missing := by
  obtain ⟨hclosed, hread⟩ := h
  induction hclosed with
  | nil => rfl
  | @last line hfeed =>
    have hline := finalEnding_text hfeed (hread line List.mem_cons_self).1
    simpa using hline
  | @cons line rest hfeed hending _ ih =>
    have hrest := ih fun l hl => hread l (List.mem_cons_of_mem _ hl)
    cases rest with
    | nil =>
      have hline := finalEnding_text hfeed (hread line List.mem_cons_self).1
      simpa using hline
    | cons next rest =>
      have hne : (next :: rest).flatMap RawLine.text ≠ [] := by
        intro hnil
        rw [List.flatMap_cons] at hnil
        exact (hread next (List.mem_cons_of_mem _ List.mem_cons_self)).2
          (List.append_eq_nil_iff.1 hnil).1
      obtain ⟨init, htext⟩ := text_eq_append_feed hending
      rw [List.flatMap_cons, htext, List.append_assoc, List.singleton_append,
        finalEnding_append hne, hrest, List.getLast?_cons_cons]

theorem finalEnding_eq (t : Text) :
    t.finalEnding = (t.splitLines.getLast?.map RawLine.ending).getD .missing := by
  have h := finalEnding_flatMap (split_splitLines t)
  rwa [flatMap_text_splitLines] at h

end Text

namespace Text

theorem finalEnding_ne_missing_iff (t : Text) :
    t.finalEnding ≠ .missing ↔ t.getLast? = some '\n' := by
  rw [List.getLast?_eq_head?_reverse, finalEnding]
  split
  · rename_i h
    simp [h]
  · rename_i h
    simp [h]
  · rename_i hreturn hfeed
    cases hreverse : t.reverse with
    | nil => simp
    | cons c rest =>
      have hc : c ≠ '\n' := fun hc => hfeed rest (hc ▸ hreverse)
      simp [hc]

end Text

namespace RawLine

theorem Closed.missing_last {lines : List RawLine} (h : Closed lines) {i : Nat} {line : RawLine}
    (hline : lines[i]? = some line) (hmissing : line.ending = .missing) : i + 1 = lines.length := by
  induction h generalizing i with
  | nil => simp at hline
  | last _ =>
    cases i with
    | zero => rfl
    | succ i => simp at hline
  | @cons first rest _ hending _ ih =>
    cases i with
    | zero =>
      rw [List.getElem?_cons_zero, Option.some.injEq] at hline
      rw [hline] at hending
      exact absurd hmissing hending
    | succ i =>
      rw [List.getElem?_cons_succ] at hline
      rw [ih hline, List.length_cons]

theorem getElem?_close (common final : Ending) (lines : List RawLine) (i : Nat) :
    (close common final lines)[i]? = lines[i]?.map fun line =>
      { line with
        ending :=
          if i + 1 = lines.length then final
          else if line.ending = .missing then common else line.ending } := by
  induction lines generalizing i with
  | nil => rfl
  | cons line rest ih =>
    cases rest with
    | nil => cases i <;> simp [close]
    | cons next rest =>
      cases i with
      | zero => simp [close]
      | succ i =>
        rw [close, List.getElem?_cons_succ, ih, List.getElem?_cons_succ]
        simp only [List.length_cons, Nat.add_right_cancel_iff]

theorem length_close (common final : Ending) (lines : List RawLine) :
    (close common final lines).length = lines.length := by
  have h := congrArg List.length (map_body_close common final lines)
  rwa [List.length_map, List.length_map] at h

end RawLine

namespace Text

/-- A line lacks a terminator if it is the last one and the document ends without. -/
theorem missing_iff {t : Text} {i : Nat} {line : RawLine} (hline : t.splitLines[i]? = some line) :
    line.ending = .missing ↔ i + 1 = t.splitLines.length ∧ t.finalEnding = .missing := by
  have hlast : i + 1 = t.splitLines.length → t.finalEnding = line.ending := by
    intro hi
    have hindex : t.splitLines.length - 1 = i := by omega
    rw [finalEnding_eq, List.getLast?_eq_getElem?, hindex, hline]
    rfl
  constructor
  · intro hmissing
    have hi := (closed_splitLines t).missing_last hline hmissing
    exact ⟨hi, (hlast hi).trans hmissing⟩
  · rintro ⟨hi, hfinal⟩
    rw [← hlast hi, hfinal]

theorem length_splitLines_joinLines_le (model : Text) {lines : List RawLine}
    (h : ∀ line ∈ lines, '\n' ∉ line.body) :
    (joinLines model lines).splitLines.length ≤ lines.length := by
  rw [splitLines_joinLines model h, List.length_map, ← length_close model.commonEnding
    model.finalEnding lines]
  exact List.length_filter_le _ _

/-- Where joining loses no line, every line is read back with the terminator that it was given. -/
theorem getElem?_splitLines_joinLines {model : Text} {lines : List RawLine}
    (h : ∀ line ∈ lines, '\n' ∉ line.body)
    (hlength : (joinLines model lines).splitLines.length = lines.length) (i : Nat) :
    (joinLines model lines).splitLines[i]? = lines[i]?.map fun line =>
      ({ line with
        ending :=
          if i + 1 = lines.length then model.finalEnding
          else if line.ending = .missing then model.commonEnding
          else line.ending } : RawLine).reread := by
  have hsplit := splitLines_joinLines model h
  have hkept : (RawLine.close model.commonEnding model.finalEnding lines).filter
      (fun line => !line.text.isEmpty) =
        RawLine.close model.commonEnding model.finalEnding lines := by
    rw [List.filter_eq_self, ← List.length_filter_eq_length_iff, RawLine.length_close, ← hlength,
      hsplit, List.length_map]
  rw [hsplit, hkept, List.getElem?_map, RawLine.getElem?_close, Option.map_map]
  rfl

end Text

/-! ### Empty last lines -/

namespace RawLine

/-- A line that is not the last one, with the common terminator if it has none. -/
def fill (common : Ending) (line : RawLine) : RawLine :=
  { line with ending := if line.ending = .missing then common else line.ending }

theorem close_concat (common final : Ending) (init : List RawLine) (last : RawLine) :
    close common final (init ++ [last]) =
      init.map (fill common) ++ [{ last with ending := final }] := by
  induction init with
  | nil => rfl
  | cons line init ih =>
    have hne : init ++ [last] ≠ [] :=
      List.append_ne_nil_of_right_ne_nil init (List.cons_ne_nil last [])
    obtain ⟨next, rest, hrest⟩ := List.exists_cons_of_ne_nil hne
    rw [List.cons_append, hrest, close, ← hrest, ih]
    rfl

theorem ending_fill_ne_missing {common : Ending} (hcommon : common ≠ .missing) (line : RawLine) :
    (fill common line).ending ≠ .missing := by
  rw [fill]
  split
  · exact hcommon
  · assumption

theorem text_fill_ne_nil {common : Ending} (hcommon : common ≠ .missing) (line : RawLine) :
    (fill common line).text ≠ [] := by
  obtain ⟨init, htext⟩ := Text.text_eq_append_feed (ending_fill_ne_missing hcommon line)
  rw [htext]
  exact List.append_ne_nil_of_right_ne_nil init (List.cons_ne_nil _ _)

/-- The last line is empty. -/
def LastEmpty (lines : List RawLine) : Prop :=
  ∃ init last, lines = init ++ [last] ∧ last.body = []

end RawLine

namespace Text

/-- Joining loses a line where the last one is empty and gets no terminator. -/
theorem splitLines_joinLines_concat (model : Text) {init : List RawLine} {last : RawLine}
    (h : ∀ line ∈ init ++ [last], '\n' ∉ line.body) :
    (joinLines model (init ++ [last])).splitLines =
      (init.map (fill model.commonEnding)).map reread ++
        if last.body = [] ∧ model.finalEnding = .missing then []
        else [({ last with ending := model.finalEnding } : RawLine).reread] := by
  rw [splitLines_joinLines model h, close_concat, List.filter_append, List.map_append]
  congr 1
  · rw [List.filter_eq_self.2]
    intro line hline
    obtain ⟨line, _, rfl⟩ := List.mem_map.1 hline
    simpa using text_fill_ne_nil model.commonEnding_ne_missing line
  · cases hfinal : model.finalEnding with
    | missing => cases hbody : last.body <;> simp [RawLine.text, Ending.text]
    | lf | crlf => simp [RawLine.text, Ending.text]

/-- A line that is not empty is read back in its place, whatever terminator it was given. -/
theorem exists_getElem?_joinLines (model : Text) {lines : List RawLine}
    (h : ∀ line ∈ lines, '\n' ∉ line.body) {i : Nat} {line : RawLine} (hline : lines[i]? = some line)
    (hbody : line.body ≠ []) :
    ∃ ending, (joinLines model lines).splitLines[i]? =
      some ({ line with ending } : RawLine).reread := by
  rcases List.eq_nil_or_concat' lines with rfl | ⟨init, last, rfl⟩
  · cases hline
  · rw [splitLines_joinLines_concat model h]
    rcases Nat.lt_or_ge i init.length with hi | hi
    · rw [List.getElem?_append_left hi] at hline
      rw [List.getElem?_append_left (by simpa using hi), List.getElem?_map, List.getElem?_map, hline]
      exact ⟨_, rfl⟩
    · have hlt := (List.getElem?_eq_some_iff.1 hline).1
      rw [List.length_append, List.length_singleton] at hlt
      obtain rfl : i = init.length := Nat.le_antisymm (Nat.lt_succ_iff.1 hlt) hi
      rw [List.getElem?_concat_length, Option.some.injEq] at hline
      rw [if_neg fun hlost => hbody (hline ▸ hlost.1), List.getElem?_append_right (by simp), hline]
      exact ⟨model.finalEnding, by simp⟩

theorem length_joinLines_of_lastEmpty {model : Text} (hmodel : model.finalEnding = .missing)
    {lines : List RawLine} (hfeed : ∀ line ∈ lines, '\n' ∉ line.body) (h : LastEmpty lines) :
    (joinLines model lines).splitLines.length + 1 = lines.length := by
  obtain ⟨init, last, rfl, hbody⟩ := h
  rw [splitLines_joinLines_concat model hfeed, if_pos ⟨hbody, hmodel⟩]
  simp

theorem length_joinLines {model : Text} {lines : List RawLine}
    (hfeed : ∀ line ∈ lines, '\n' ∉ line.body)
    (h : ¬ (LastEmpty lines ∧ model.finalEnding = .missing)) :
    (joinLines model lines).splitLines.length = lines.length := by
  rcases List.eq_nil_or_concat' lines with rfl | ⟨init, last, rfl⟩
  · rfl
  · have hkept : ¬ (last.body = [] ∧ model.finalEnding = .missing) :=
      fun ⟨hbody, hmodel⟩ => h ⟨⟨init, last, rfl, hbody⟩, hmodel⟩
    rw [splitLines_joinLines_concat model hfeed, if_neg hkept]
    simp

/-- The line above an empty last line is terminated. -/
theorem finalEnding_joinLines_of_lastEmpty {model : Text} (hmodel : model.finalEnding = .missing)
    {lines : List RawLine} (hfeed : ∀ line ∈ lines, '\n' ∉ line.body) (h : LastEmpty lines)
    (hlength : 1 < lines.length) : (joinLines model lines).finalEnding ≠ .missing := by
  obtain ⟨init, last, rfl, hbody⟩ := h
  rcases List.eq_nil_or_concat' init with rfl | ⟨init, above, rfl⟩
  · simp at hlength
  · rw [finalEnding_eq, splitLines_joinLines_concat model hfeed, if_pos ⟨hbody, hmodel⟩]
    simp only [List.append_nil, List.map_append, List.map_cons, List.map_nil, List.getLast?_concat,
      Option.map_some, Option.getD_some, ne_eq, missing_reread]
    exact ending_fill_ne_missing model.commonEnding_ne_missing above

end Text

/-! ### What joining keeps -/

namespace RawLine

/-- The terminators that joining gives are not seen, but for a last line that gets none. -/
theorem map_bare_close {common common' final final' : Ending} (hcommon : common ≠ .missing)
    (hcommon' : common' ≠ .missing) (hfinal : final = .missing ↔ final' = .missing)
    (lines : List RawLine) :
    ((close common final lines).filter fun line => !line.text.isEmpty).map bare =
      ((close common' final' lines).filter fun line => !line.text.isEmpty).map bare := by
  have hkept : ∀ (line : RawLine) (ending : Ending) (rest : List RawLine), ending ≠ .missing →
      ({ line with ending } :: rest).filter (fun line => !line.text.isEmpty) =
        { line with ending } :: rest.filter fun line => !line.text.isEmpty := by
    intro line ending rest hending
    refine List.filter_cons_of_pos ?_
    cases ending with
    | missing => exact absurd rfl hending
    | lf | crlf => simp [text, Ending.text]
  induction lines with
  | nil => rfl
  | cons line rest ih =>
    cases rest with
    | nil =>
      simp only [close]
      by_cases hmissing : final = .missing
      · rw [hmissing, hfinal.1 hmissing]
      · rw [hkept line final [] hmissing, hkept line final' [] fun h => hmissing (hfinal.2 h)]
        rfl
    | cons next rest =>
      have hending : ∀ {common : Ending}, common ≠ .missing →
          (if line.ending = .missing then common else line.ending) ≠ .missing := by
        intro common hcommon
        by_cases h : line.ending = .missing
        · rw [if_pos h]
          exact hcommon
        · rw [if_neg h]
          exact h
      rw [close, close, hkept line _ _ (hending hcommon), hkept line _ _ (hending hcommon'),
        List.map_cons, List.map_cons, ih]
      rfl

end RawLine

namespace Text

theorem map_bare_reread (lines : List RawLine) :
    (lines.map RawLine.reread).map RawLine.bare = lines.map RawLine.bare := by
  rw [List.map_map]
  refine List.map_congr_left fun line _ => ?_
  exact RawLine.bare_eq_iff.2 (RawLine.core_reread line)

theorem map_bare_joinLines {model model' : Text}
    (hfinal : model.finalEnding = .missing ↔ model'.finalEnding = .missing) {lines : List RawLine}
    (hfeed : ∀ line ∈ lines, '\n' ∉ line.body) :
    (joinLines model lines).splitLines.map RawLine.bare =
      (joinLines model' lines).splitLines.map RawLine.bare := by
  rw [splitLines_joinLines model hfeed, splitLines_joinLines model' hfeed, map_bare_reread,
    map_bare_reread]
  exact RawLine.map_bare_close model.commonEnding_ne_missing model'.commonEnding_ne_missing hfinal
    lines

theorem map_bare_of_length {model : Text} {lines : List RawLine}
    (hfeed : ∀ line ∈ lines, '\n' ∉ line.body)
    (hlength : (joinLines model lines).splitLines.length = lines.length) :
    (joinLines model lines).splitLines.map RawLine.bare = lines.map RawLine.bare := by
  refine List.ext_getElem? fun i => ?_
  rw [List.getElem?_map, List.getElem?_map, getElem?_splitLines_joinLines hfeed hlength,
    Option.map_map]
  cases lines[i]? with
  | none => rfl
  | some line =>
    rw [Option.map_some, Option.map_some, Function.comp_apply, Option.some.injEq,
      RawLine.bare_eq_iff, RawLine.core_reread]

theorem finalEnding_joinLines {model : Text} {lines : List RawLine}
    (hfeed : ∀ line ∈ lines, '\n' ∉ line.body) (hne : lines ≠ [])
    (hlength : (joinLines model lines).splitLines.length = lines.length) :
    (joinLines model lines).finalEnding = .missing ↔ model.finalEnding = .missing := by
  have hpos : 0 < lines.length := List.length_pos_iff.2 hne
  have hlt : lines.length - 1 < lines.length := by omega
  have hlast : lines.length - 1 + 1 = lines.length := by omega
  rw [finalEnding_eq, List.getLast?_eq_getElem?, hlength,
    getElem?_splitLines_joinLines hfeed hlength, List.getElem?_eq_getElem hlt, Option.map_some,
    Option.map_some, Option.getD_some, RawLine.missing_reread]
  simp only [hlast, if_true]

end Text
end Reindent
