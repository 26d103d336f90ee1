import Reindent.Pass.State

/-!
# Reindent.Proofs.Line.Reading

A line that has been read keeps its text, and its indentation is that of the text.

* `Line.IsRead`           — the line is read from its text.
* `IsRead.indent_spaces_content` — behind any indentation, its content starts at that column.
-/

namespace Reindent
namespace Text

theorem head?_drop_indent (t : Text) : (t.drop t.indent).head? ≠ some ' ' := by
  induction t with
  | nil => simp
  | cons c t ih =>
    by_cases hc : c = ' '
    · subst hc
      simpa [Text.indent] using ih
    · simp [Text.indent, hc]

theorem indent_spaces_append {t : Text} (h : t.head? ≠ some ' ') (n : Nat) :
    (spaces n ++ t).indent = n := by
  have hstop : t.takeWhile (· == ' ') = [] := by
    cases t with
    | nil => rfl
    | cons c t =>
      have hc : c ≠ ' ' := by simpa using h
      simp [hc]
  rw [indent, spaces, List.takeWhile_append_of_pos (by simp), hstop]
  simp

end Text

namespace Line

theorem text_ofText (text : Text) : (ofText text).text = text := by
  simp only [ofText]
  repeat' split
  all_goals rfl

theorem indent_ofText (text : Text) : (ofText text).indent = text.indent := by
  simp only [ofText]
  repeat' split
  all_goals rfl

/-- The line is read from its text. -/
def IsRead (line : Line) : Prop :=
  line = ofText line.text

theorem isRead_ofText (text : Text) : (ofText text).IsRead := by
  rw [IsRead, text_ofText]

theorem IsRead.indent_eq {line : Line} (h : line.IsRead) : line.indent = line.text.indent := by
  rw [h, text_ofText, indent_ofText]

theorem IsRead.spaces_append_content {line : Line} (h : line.IsRead) :
    Text.spaces line.indent ++ line.content = line.text := by
  rw [content, h.indent_eq, Text.spaces_indent_append]

theorem IsRead.indent_spaces_content {line : Line} (h : line.IsRead) (column : Nat) :
    (Text.spaces column ++ line.content).indent = column := by
  refine Text.indent_spaces_append ?_ column
  rw [Line.content, h.indent_eq]
  exact Text.head?_drop_indent line.text

end Line

namespace InputLine

theorem isRead_of_mem_ofLines {n : Nat} {lines : List RawLine} {input : InputLine}
    (h : input ∈ ofLines n lines) : input.line.IsRead := by
  induction lines generalizing n with
  | nil => simp [ofLines] at h
  | cons raw rest ih =>
    rcases List.mem_cons.1 h with rfl | h
    · exact Line.isRead_ofText raw.body
    · exact ih h

theorem map_number_ofLines (n : Nat) (lines : List RawLine) :
    (InputLine.ofLines n lines).map InputLine.number = List.range' n lines.length := by
  induction lines generalizing n with
  | nil => rfl
  | cons raw rest ih => simp [InputLine.ofLines, ih, List.range'_succ]

end InputLine
end Reindent
