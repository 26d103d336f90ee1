import Reindent.Proofs.Line.Reading
import Reindent.Proofs.Text.Trim
import Reindent.Pass.Step

/-!
# Reindent.Proofs.Line.Displaced

A line that stands further to the right.

* `Line.displace`        — the line behind more spaces.
* `ofText_spaces_append` — that is how it is read there.
* `openKeyColumns?_displace` — the key that it leaves open stands as much further to the right.
-/

namespace Reindent
namespace Text

theorem indent_spaces_add (n : Nat) (t : Text) : (spaces n ++ t).indent = t.indent + n := by
  rw [indent, spaces, List.takeWhile_append_of_pos (by simp), List.length_append,
    List.length_replicate, ← indent, Nat.add_comm]

theorem drop_add_spaces_append (n i : Nat) (t : Text) :
    (spaces n ++ t).drop (i + n) = t.drop i := by
  rw [Nat.add_comm, ← List.drop_drop, spaces, List.drop_left' (List.length_replicate ..)]

theorem takeWhile_spaces_append {p : Char → Bool} (hspace : p ' ' = true) (n : Nat) (t : Text) :
    (spaces n ++ t).takeWhile p = spaces n ++ t.takeWhile p := by
  refine List.takeWhile_append_of_pos fun c hc => ?_
  rw [List.eq_of_mem_replicate hc]
  exact hspace

end Text

namespace Line

/-- The line, `n` columns further to the right. -/
def displace (n : Nat) (line : Line) : Line :=
  { line with text := Text.spaces n ++ line.text, indent := line.indent + n }

variable {line : Line}

@[simp] theorem displace_zero (line : Line) : line.displace 0 = line := by
  cases line
  rfl

theorem ofText_spaces_append (n : Nat) (t : Text) :
    ofText (Text.spaces n ++ t) = (ofText t).displace n := by
  have htab : ((Text.spaces n ++ t).takeWhile fun c => c == ' ' || c == '\t').contains '\t' =
      (t.takeWhile fun c => c == ' ' || c == '\t').contains '\t' := by
    rw [Text.takeWhile_spaces_append (by decide), Text.spaces, List.contains_eq_mem,
      List.contains_eq_mem]
    simp [List.mem_replicate]
  have hcontent : (Text.spaces n ++ t).drop (Text.spaces n ++ t).indent = t.drop t.indent := by
    rw [Text.indent_spaces_add, Text.drop_add_spaces_append]
  simp only [ofText, Text.trim_spaces_append, htab, hcontent]
  split
  · simp only [plain, displace, Text.indent_spaces_add]
  · split
    · simp only [plain, displace, Text.indent_spaces_add]
    · split
      · simp only [plain, displace, Text.indent_spaces_add]
      · split
        · simp only [ofItem, displace, Text.indent_spaces_add]
        · split
          · simp only [ofPair, displace, Text.indent_spaces_add]
          · simp only [plain, displace, Text.indent_spaces_add]

theorem IsRead.displace (h : line.IsRead) (n : Nat) : (line.displace n).IsRead := by
  have htext : (line.displace n).text = Text.spaces n ++ line.text := rfl
  rw [IsRead, htext, ofText_spaces_append, ← h]

@[simp] theorem content_displace (n : Nat) (line : Line) :
    (line.displace n).content = line.content :=
  Text.drop_add_spaces_append n line.indent line.text

@[simp] theorem payload?_displace (n : Nat) (line : Line) :
    (line.displace n).payload? = line.payload? := by
  rw [payload?, payload?, content_displace]
  rfl

@[simp] theorem payloadOffset_displace (n : Nat) (line : Line) :
    (line.displace n).payloadOffset = line.payloadOffset := by
  rw [payloadOffset, payloadOffset, content_displace, payload?_displace]

theorem openKeyColumns?_displace (n : Nat) (line : Line) (indent : Nat) :
    (line.displace n).openKeyColumns? indent =
      (line.openKeyColumns? indent).map fun columns => (columns.1 + n, columns.2) := by
  have hopens : (line.displace n).itemOpensKey = line.itemOpensKey := rfl
  have hcategory : (line.displace n).category = line.category := rfl
  have hindent : (line.displace n).indent = line.indent + n := rfl
  simp only [openKeyColumns?, hopens, hcategory, hindent, payloadOffset_displace,
    Nat.add_right_comm line.indent n]
  split
  · rfl
  · split <;> rfl

/-- The key that a line leaves open stands no further left than the line. -/
theorem indent_le_of_openKeyColumns? {indent column base : Nat}
    (h : line.openKeyColumns? indent = some (column, base)) : line.indent ≤ column := by
  simp only [openKeyColumns?] at h
  split at h
  · cases h
    exact Nat.le_add_right _ _
  · split at h
    · cases h
      exact Nat.le_refl _
    · cases h

end Line
end Reindent
