import Reindent.Proofs.Text.Endings

/-!
# Reindent.Proofs.Text.Terminators

What the ends of lines have to do with a document.

* `Text.terminators`     — what ends the lines of a document.
* `eq_of_terminators`    — together with the cores of the lines they are the document.
* `joinLines_splitLines` — the lines of a document, joined with its own conventions.
* `joinLines_of_lf`, `return_not_mem_joinLines` — joining in a document without carriage returns.
* `splitLines_inverse`   — splitting and joining are inverse on a document that nothing was done to.
-/

namespace Reindent
namespace Text

/-- What ends the lines of a document. -/
def terminators (t : Text) : List Text :=
  t.splitLines.map RawLine.terminator

/-- Documents whose lines have the same cores and end the same are the same. -/
theorem eq_of_terminators {t t' : Text}
    (hbare : t.splitLines.map RawLine.bare = t'.splitLines.map RawLine.bare)
    (hends : t.terminators = t'.terminators) : t = t' := by
  have htext : ∀ t : Text, t = (List.zipWith (fun line ends => line.body ++ ends)
      (t.splitLines.map RawLine.bare) t.terminators).flatten := by
    intro t
    rw [terminators, List.zipWith_map, List.zipWith_self]
    conv => lhs; rw [← flatMap_text_splitLines t]
    rw [List.flatMap]
    congr 1
    exact List.map_congr_left fun line _ => line.core_append_terminator.symm
  rw [htext t, hbare, hends, ← htext t']

/-! ### Joining without carriage returns -/

theorem getElem?_close_of_lf {lines : List RawLine} (h : ∀ line ∈ lines, line.ending ≠ .crlf)
    (final : Ending) (i : Nat) :
    (RawLine.close .lf final lines)[i]? = (lines.map RawLine.body)[i]?.map fun body =>
      { body, ending := if i + 1 = lines.length then final else .lf } := by
  rw [RawLine.getElem?_close, List.getElem?_map, Option.map_map]
  cases hline : lines[i]? with
  | none => rfl
  | some line =>
    have hending := h line (List.mem_of_getElem? hline)
    cases hkind : line.ending with
    | missing | lf => simp [hkind]
    | crlf => exact absurd hkind hending

/-- Where no line ends with a carriage return, joining reads no terminator but the last. -/
theorem joinLines_of_lf {model : Text} (hmodel : model.commonEnding = .lf)
    {lines lines' : List RawLine} (h : ∀ line ∈ lines, line.ending ≠ .crlf)
    (h' : ∀ line ∈ lines', line.ending ≠ .crlf)
    (hbody : lines.map RawLine.body = lines'.map RawLine.body) :
    joinLines model lines = joinLines model lines' := by
  have hlength := congrArg List.length hbody
  rw [List.length_map, List.length_map] at hlength
  rw [joinLines, joinLines, hmodel, RawLine.joinLinesWith_eq_flatMap,
    RawLine.joinLinesWith_eq_flatMap]
  congr 1
  refine List.ext_getElem? fun i => ?_
  rw [getElem?_close_of_lf h, getElem?_close_of_lf h', hbody, hlength]

theorem close_of_closed {lines : List RawLine} (h : RawLine.Closed lines) (common : Ending) :
    RawLine.close common ((lines.getLast?.map RawLine.ending).getD .missing) lines = lines := by
  induction h with
  | nil => rfl
  | last _ => rfl
  | @cons line rest _ hending _ ih =>
    cases rest with
    | nil => rfl
    | cons next rest =>
      rw [RawLine.close, if_neg hending, List.getLast?_cons_cons, ih]

theorem joinLines_splitLines (t : Text) : joinLines t t.splitLines = t := by
  rw [joinLines, RawLine.joinLinesWith_eq_flatMap, finalEnding_eq,
    close_of_closed (closed_splitLines t), flatMap_text_splitLines]

theorem return_not_mem_text {t : Text} (h : '\r' ∉ t) {line : RawLine}
    (hline : line ∈ t.splitLines) :
    '\r' ∉ line.text := by
  rw [← flatMap_text_splitLines t] at h
  exact fun hmem => h (List.mem_flatMap.2 ⟨line, hline, hmem⟩)

end Text

namespace RawLine

theorem return_not_mem_iff {line : RawLine} :
    '\r' ∉ line.text ↔ '\r' ∉ line.body ∧ line.ending ≠ .crlf := by
  obtain ⟨body, ending⟩ := line
  cases ending <;> simp [text, Ending.text]

end RawLine

namespace Text

theorem commonEnding_of_not_mem {t : Text} (h : '\r' ∉ t) : t.commonEnding = .lf := by
  have hcrlf : containsCrlf t ≠ true := by
    intro hcontains
    obtain ⟨line, hline, hending⟩ := (containsCrlf_iff t).1 hcontains
    exact (RawLine.return_not_mem_iff.1 (return_not_mem_text h hline)).2 hending
  rw [commonEnding, if_neg hcrlf]

theorem finalEnding_of_not_mem {t : Text} (h : '\r' ∉ t) : t.finalEnding ≠ .crlf := by
  rw [finalEnding_eq]
  cases hlast : t.splitLines.getLast? with
  | none => simp
  | some line =>
    have hline := return_not_mem_text h (List.mem_of_getLast? hlast)
    exact (RawLine.return_not_mem_iff.1 hline).2

theorem return_not_mem_joinLines {model : Text} (hmodel : '\r' ∉ model) {lines : List RawLine}
    (h : ∀ line ∈ lines, '\r' ∉ line.text) : '\r' ∉ joinLines model lines := by
  have hending : ∀ line ∈ lines, line.ending ≠ .crlf := fun line hline =>
    (RawLine.return_not_mem_iff.1 (h line hline)).2
  rw [joinLines, commonEnding_of_not_mem hmodel, RawLine.joinLinesWith_eq_flatMap]
  intro hmem
  obtain ⟨line, hline, hmem⟩ := List.mem_flatMap.1 hmem
  obtain ⟨i, hi⟩ := List.getElem?_of_mem hline
  rw [getElem?_close_of_lf hending, Option.map_eq_some_iff] at hi
  obtain ⟨body, hbody, rfl⟩ := hi
  obtain ⟨raw, hraw, rfl⟩ := List.mem_map.1 (List.mem_of_getElem? hbody)
  have hjoined : (if i + 1 = lines.length then model.finalEnding else .lf) ≠ Ending.crlf := by
    split
    · exact finalEnding_of_not_mem hmodel
    · decide
  have hbody : '\r' ∉ raw.body := (RawLine.return_not_mem_iff.1 (h raw hraw)).1
  exact absurd hmem (RawLine.return_not_mem_iff.2 ⟨hbody, hjoined⟩)

/-- The lines of a document make it up, their bodies and terminators are told apart in the one way
that there is, and joined with the document's conventions they are the document again. -/
theorem splitLines_inverse (t : Text) :
    (t.splitLines.flatMap fun line => line.body ++ line.ending.text) = t ∧
      (∀ line ∈ t.splitLines, '\n' ∉ line.body) ∧
      (∀ (i : Nat) (line : RawLine), t.splitLines[i]? = some line →
        line.ending.text = ['\n'] ∨ line.ending.text = ['\r', '\n'] ∨
          line.ending.text = [] ∧ i + 1 = t.splitLines.length) ∧
      (∀ line ∈ t.splitLines, line.ending.text = ['\n'] → line.body.getLast? ≠ some '\r') ∧
      joinLines t t.splitLines = t := by
  refine ⟨flatMap_text_splitLines t, (closed_splitLines t).not_mem_body, ?_, ?_,
    joinLines_splitLines t⟩
  · intro i line hline
    cases hending : line.ending with
    | missing => exact .inr (.inr ⟨rfl, ((missing_iff hline).1 hending).1⟩)
    | lf => exact .inl rfl
    | crlf => exact .inr (.inl rfl)
  · intro line hline htext
    have hlf : line.ending = .lf := by
      cases hending : line.ending with
      | lf => rfl
      | missing | crlf =>
        rw [hending] at htext
        cases htext
    exact body_getLast?_of_lf (reread_of_mem_splitLines hline) hlf

/-- Two carriage returns in front of a line feed, and one at the end. -/
def mixedReturns : Text :=
  "a\r\r\n\nb\r".toList

/-- A carriage return in front of another one, or at the end of the document, belongs to the line. -/
theorem splitLines_inverse_mixedReturns :
    mixedReturns.splitLines =
        [⟨['a', '\r'], .crlf⟩, ⟨[], .lf⟩, ⟨['b', '\r'], .missing⟩] ∧
      '\n' ∉ ['a', '\r'] ∧
      (Ending.text .missing = ['\n'] ∨ Ending.text .missing = ['\r', '\n'] ∨
        Ending.text .missing = [] ∧ 2 + 1 = mixedReturns.splitLines.length) ∧
      ([] : Text).getLast? ≠ some '\r' ∧
      joinLines mixedReturns mixedReturns.splitLines = mixedReturns := by
  have hsplit : mixedReturns.splitLines =
      [⟨['a', '\r'], .crlf⟩, ⟨[], .lf⟩, ⟨['b', '\r'], .missing⟩] := by decide
  obtain ⟨-, hbody, hending, hreturn, hjoin⟩ := splitLines_inverse mixedReturns
  exact ⟨hsplit, hbody ⟨['a', '\r'], .crlf⟩ (by decide),
    hending 2 ⟨['b', '\r'], .missing⟩ (by decide), hreturn ⟨[], .lf⟩ (by decide) rfl, hjoin⟩

end Text
end Reindent
