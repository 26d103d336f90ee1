import Reindent.Proofs.Text.Terminators

/-!
# Reindent.Proofs.Text.Crlf

A document written with `\r\n`.

* `Text.toCrlf`         — the document with `\r\n` for each line feed.
* `splitLines_toCrlf`   — it has the same lines, each with the other terminator.
* `toCrlf_joinLines`    — the document of such lines, by the conventions of such a document.
* `eq_of_toCrlf`        — nothing else becomes the same document.
-/

namespace Reindent

namespace Ending

def toCrlf : Ending → Ending
  | lf => crlf
  | ending => ending

theorem toCrlf_eq_missing {ending : Ending} : ending.toCrlf = missing ↔ ending = missing := by
  cases ending <;> decide

end Ending

def RawLine.toCrlf (line : RawLine) : RawLine :=
  { line with ending := line.ending.toCrlf }

namespace Text

/-- The text with `\r\n` in the place of each line feed. -/
def toCrlf (t : Text) : Text :=
  t.flatMap fun c => if c = '\n' then ['\r', '\n'] else [c]

theorem toCrlf_append (s t : Text) : (s ++ t).toCrlf = s.toCrlf ++ t.toCrlf :=
  List.flatMap_append

theorem toCrlf_of_not_mem {t : Text} (h : '\n' ∉ t) : t.toCrlf = t := by
  induction t with
  | nil => rfl
  | cons c rest ih =>
    obtain ⟨hc, hrest⟩ := not_or.1 (mt List.mem_cons.2 h)
    rw [toCrlf, List.flatMap_cons, if_neg (Ne.symm hc), List.singleton_append]
    exact congrArg (c :: ·) (ih hrest)

theorem filter_toCrlf {t : Text} (h : '\r' ∉ t) : t.toCrlf.filter (· ≠ '\r') = t := by
  induction t with
  | nil => rfl
  | cons c rest ih =>
    obtain ⟨hc, hrest⟩ := not_or.1 (mt List.mem_cons.2 h)
    have hcons : toCrlf (c :: rest) =
        (if c = '\n' then ['\r', '\n'] else [c]) ++ toCrlf rest := List.flatMap_cons
    rw [hcons, List.filter_append, ih hrest]
    by_cases hfeed : c = '\n'
    · rw [hfeed]
      rfl
    · rw [if_neg hfeed]
      simp [Ne.symm hc]

/-- Documents without carriage returns stay apart. -/
theorem eq_of_toCrlf {s t : Text} (hs : '\r' ∉ s) (ht : '\r' ∉ t) (h : s.toCrlf = t.toCrlf) :
    s = t := by
  rw [← filter_toCrlf hs, h, filter_toCrlf ht]

end Text

/-! ### Lines -/

namespace RawLine

variable {line : RawLine}

theorem text_toCrlf (hfeed : '\n' ∉ line.body) (hending : line.ending ≠ .crlf) :
    line.toCrlf.text = Text.toCrlf line.text := by
  rw [text, text, Text.toCrlf_append, Text.toCrlf_of_not_mem hfeed, toCrlf]
  cases h : line.ending with
  | missing => rfl
  | lf => rfl
  | crlf => exact absurd h hending

/-- No line feed stands at the end alone, so that a line is read back as it is. -/
theorem reread_toCrlf (line : RawLine) : line.toCrlf.reread = line.toCrlf := by
  obtain ⟨body, ending⟩ := line
  cases ending <;> rfl

theorem text_toCrlf_eq_nil : line.toCrlf.text = [] ↔ line.text = [] := by
  obtain ⟨body, ending⟩ := line
  cases ending <;> simp [text, toCrlf, Ending.toCrlf, Ending.text]

theorem closed_toCrlf {lines : List RawLine} (h : Closed lines) :
    Closed (lines.map RawLine.toCrlf) := by
  induction h with
  | nil => exact .nil
  | last hfeed => exact .last hfeed
  | cons hfeed hending _ ih => exact .cons hfeed (mt Ending.toCrlf_eq_missing.1 hending) ih

theorem flatMap_text_toCrlf {lines : List RawLine} (hfeed : ∀ line ∈ lines, '\n' ∉ line.body)
    (hending : ∀ line ∈ lines, line.ending ≠ .crlf) :
    (lines.map RawLine.toCrlf).flatMap text = Text.toCrlf (lines.flatMap text) := by
  induction lines with
  | nil => rfl
  | cons line rest ih =>
    rw [List.forall_mem_cons] at hfeed hending
    rw [List.map_cons, List.flatMap_cons, List.flatMap_cons, Text.toCrlf_append,
      text_toCrlf hfeed.1 hending.1, ih hfeed.2 hending.2]

theorem close_toCrlf (final : Ending) {lines : List RawLine}
    (hending : ∀ line ∈ lines, line.ending ≠ .crlf) :
    close .crlf final.toCrlf (lines.map RawLine.toCrlf) =
      (close .lf final lines).map RawLine.toCrlf := by
  induction lines with
  | nil => rfl
  | cons line rest ih =>
    rw [List.forall_mem_cons] at hending
    cases rest with
    | nil => rfl
    | cons next rest =>
      have hrest := ih hending.2
      rw [List.map_cons] at hrest
      simp only [List.map_cons, close, hrest]
      congr 1
      obtain ⟨body, ending⟩ := line
      cases ending <;> rfl

end RawLine

namespace Text

variable {t : Text}

theorem ending_ne_crlf (h : '\r' ∉ t) : ∀ line ∈ t.splitLines, line.ending ≠ .crlf :=
  fun _ hline => (RawLine.return_not_mem_iff.1 (return_not_mem_text h hline)).2

theorem splitLines_toCrlf (h : '\r' ∉ t) :
    t.toCrlf.splitLines = t.splitLines.map RawLine.toCrlf := by
  have hclosed := closed_splitLines t
  have htext : t.toCrlf = (t.splitLines.map RawLine.toCrlf).flatMap RawLine.text := by
    rw [RawLine.flatMap_text_toCrlf hclosed.not_mem_body (ending_ne_crlf h),
      flatMap_text_splitLines]
  rw [htext, splitLines_flatMap_text (RawLine.closed_toCrlf hclosed), List.filter_eq_self.2,
    List.map_map]
  · exact List.map_congr_left fun line _ => RawLine.reread_toCrlf line
  · intro line hline
    obtain ⟨raw, hraw, rfl⟩ := List.mem_map.1 hline
    have hne := mt RawLine.text_toCrlf_eq_nil.1 (text_ne_nil_of_mem_splitLines hraw)
    rw [Bool.not_eq_true', List.isEmpty_eq_false_iff]
    exact hne

theorem finalEnding_toCrlf (h : '\r' ∉ t) : t.toCrlf.finalEnding = t.finalEnding.toCrlf := by
  rw [finalEnding_eq, finalEnding_eq, splitLines_toCrlf h, List.getLast?_map]
  cases t.splitLines.getLast? <;> rfl

/-- A line feed ends some line. -/
theorem exists_terminated (hfeed : '\n' ∈ t) : ∃ line ∈ t.splitLines, line.ending ≠ .missing := by
  by_contra hnone
  simp only [not_exists, not_and, not_not] at hnone
  rw [← flatMap_text_splitLines t] at hfeed
  obtain ⟨line, hline, hmem⟩ := List.mem_flatMap.1 hfeed
  rw [RawLine.text, hnone line hline, Ending.text, List.append_nil] at hmem
  exact (closed_splitLines t).not_mem_body line hline hmem

theorem commonEnding_toCrlf (h : '\r' ∉ t) (hfeed : '\n' ∈ t) : t.toCrlf.commonEnding = .crlf := by
  obtain ⟨line, hline, hending⟩ := exists_terminated hfeed
  have hcrlf : line.toCrlf.ending = .crlf := by
    have hne := ending_ne_crlf h line hline
    obtain ⟨body, ending⟩ := line
    cases ending with
    | missing => exact absurd rfl hending
    | lf => rfl
    | crlf => exact absurd rfl hne
  have hcontains : t.toCrlf.containsCrlf = true := by
    rw [containsCrlf_iff, splitLines_toCrlf h]
    exact ⟨_, List.mem_map_of_mem hline, hcrlf⟩
  rw [commonEnding, if_pos hcontains]

/-- The lines of a document make up the document with `\r\n`, by its conventions. -/
theorem toCrlf_joinLines {model : Text} (hreturn : '\r' ∉ model) (hfeed : '\n' ∈ model)
    {lines : List RawLine} (hbody : ∀ line ∈ lines, '\n' ∉ line.body)
    (hending : ∀ line ∈ lines, line.ending ≠ .crlf) :
    joinLines model.toCrlf (lines.map RawLine.toCrlf) = (joinLines model lines).toCrlf := by
  have hlf : Ending.lf ≠ .missing := by decide
  have hclosed : RawLine.Closed (RawLine.close .lf model.finalEnding lines) :=
    RawLine.closed_close hlf _ hbody
  have hplain : ∀ line ∈ RawLine.close .lf model.finalEnding lines, line.ending ≠ .crlf := by
    intro line hline
    obtain ⟨i, hi⟩ := List.getElem?_of_mem hline
    rw [getElem?_close_of_lf hending, Option.map_eq_some_iff] at hi
    obtain ⟨body, _, rfl⟩ := hi
    by_cases hlast : i + 1 = lines.length
    · simpa only [hlast, if_true] using finalEnding_of_not_mem hreturn
    · simp only [hlast, if_false, ne_eq, reduceCtorEq, not_false_eq_true]
  rw [joinLines, joinLines, commonEnding_toCrlf hreturn hfeed, finalEnding_toCrlf hreturn,
    commonEnding_of_not_mem hreturn, RawLine.joinLinesWith_eq_flatMap,
    RawLine.joinLinesWith_eq_flatMap, RawLine.close_toCrlf _ hending,
    RawLine.flatMap_text_toCrlf hclosed.not_mem_body hplain]

/-! ### Line feeds -/

theorem one_lt_length_or (hfeed : '\n' ∈ t) :
    1 < t.splitLines.length ∨ (t.splitLines ≠ [] ∧ t.finalEnding ≠ .missing) := by
  obtain ⟨line, hline, hending⟩ := exists_terminated hfeed
  rw [finalEnding_eq]
  match t.splitLines, hline with
  | [only], hline =>
    obtain rfl := List.mem_singleton.1 hline
    exact .inr ⟨List.cons_ne_nil _ _, hending⟩
  | _ :: _ :: _, _ => exact .inl (by simp)

theorem feed_mem_text {ending : Ending} (h : ending ≠ .missing) : '\n' ∈ ending.text := by
  cases ending with
  | missing => exact absurd rfl h
  | lf => decide
  | crlf => decide

/-- Joining writes a line feed after every line but the last, and after that one by the conventions
of the model. -/
theorem feed_mem_joinLines {model : Text} {lines : List RawLine}
    (h : 1 < lines.length ∨ (lines ≠ [] ∧ model.finalEnding ≠ .missing)) :
    '\n' ∈ joinLines model lines := by
  rw [joinLines]
  cases lines with
  | nil => simp at h
  | cons line rest =>
    cases rest with
    | nil =>
      have hfinal : model.finalEnding ≠ .missing := by simpa using h
      exact List.mem_append_right _ (feed_mem_text hfinal)
    | cons next rest =>
      have hending : (if line.ending = .missing then model.commonEnding else line.ending) ≠
          .missing := by
        split
        · exact commonEnding_ne_missing model
        · assumption
      exact List.mem_append_left _ (List.mem_append_right _ (feed_mem_text hending))

end Text
end Reindent
