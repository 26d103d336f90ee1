import Reindent.Proofs.Line.Core
import Reindent.Proofs.Line.Displaced

/-!
# Reindent.Proofs.Line.Kind

Lines that are read as the same kind of line.

* `Line.SameKind`     — two lines are of one category and introduce the same entry.
* `Line.reindent`     — a line whose content stands at another column.
* `ofText_reindent`   — that is how it is read there.
* `sameKind_of_core`  — carriage returns at the end make no other line of it.
-/

namespace Reindent

theorem Text.drop_spaces_append (n : Nat) (t : Text) : (spaces n ++ t).drop n = t :=
  List.drop_left' (List.length_replicate ..)

namespace Line

/-- The lines are of one category, introduce the same entry, and open a block scalar or not. -/
structure SameKind (line line' : Line) : Prop where
  category : line.category = line'.category
  key : line.key = line'.key
  value : line.value = line'.value
  blockScalar : line.blockScalar = line'.blockScalar

/-- The content of the line at the column `n`. -/
def reindent (n : Nat) (line : Line) : Line :=
  { line with text := Text.spaces n ++ line.content, indent := n }

variable {line : Line} {s t : Text}

theorem SameKind.trans {line line' line'' : Line} (h : line.SameKind line')
    (h' : line'.SameKind line'') : line.SameKind line'' :=
  ⟨h.category.trans h'.category, h.key.trans h'.key, h.value.trans h'.value,
    h.blockScalar.trans h'.blockScalar⟩

theorem sameKind_reindent (n : Nat) (line : Line) : (line.reindent n).SameKind line :=
  ⟨rfl, rfl, rfl, rfl⟩

theorem content_reindent (n : Nat) (line : Line) : (line.reindent n).content = line.content :=
  Text.drop_spaces_append n line.content

theorem payload?_reindent (n : Nat) (line : Line) : (line.reindent n).payload? = line.payload? := by
  rw [payload?, payload?, content_reindent]
  rfl

theorem payloadOffset_reindent (n : Nat) (line : Line) :
    (line.reindent n).payloadOffset = line.payloadOffset := by
  rw [payloadOffset, payloadOffset, content_reindent, payload?_reindent]

theorem reindent_displace (h : line.indent = 0) (m n : Nat) :
    (line.displace m).reindent n = line.displace n := by
  obtain ⟨text, indent, category, key, value, blockScalar⟩ := line
  cases h
  simp [reindent, content, displace, Text.drop_spaces_append]

/-- At any column a line is read as the same line. -/
theorem IsRead.ofText_spaces_content (h : line.IsRead) (n : Nat) :
    ofText (Text.spaces n ++ line.content) = line.reindent n := by
  have hindent : (ofText line.content).indent = 0 := by
    rw [indent_ofText]
    exact h.indent_spaces_content 0
  have hline : line = (ofText line.content).displace line.indent := by
    rw [← ofText_spaces_append, h.spaces_append_content, ← h]
  rw [ofText_spaces_append, ← reindent_displace hindent line.indent n, ← hline]

/-! ### Carriage returns at the end -/

/-- Texts that differ in the carriage returns at their ends. -/
theorem bare_ofText_eq (h : Text.core s = Text.core t) : (ofText s).bare = (ofText t).bare := by
  rw [← ofText_core, ← ofText_core, h]

theorem sameKind_of_core (h : Text.core s = Text.core t) :
    (ofText s).indent = (ofText t).indent ∧ (ofText s).SameKind (ofText t) := by
  have hbare := bare_ofText_eq h
  simp only [bare, Line.mk.injEq] at hbare
  obtain ⟨-, hindent, hcategory, hkey, hvalue, hscalar⟩ := hbare
  exact ⟨hindent, hcategory, hkey, hvalue, hscalar⟩

/-- A payload that is not empty is one without the carriage returns, too. -/
theorem exists_payload_of_core (h : Text.core s = Text.core t) {c : Char} {payload : Text}
    (hpayload : (ofText s).payload? = some (c :: payload)) :
    ∃ others, (ofText t).payload? = some (c :: others) := by
  have hreturn := (isRead_ofText s).head_payload_ne_return hpayload
  have hsame := congrArg Line.payload? (bare_ofText_eq h)
  rw [payload?_bare (isRead_ofText s), payload?_bare (isRead_ofText t), hpayload, Option.map_some,
    Text.core_cons hreturn] at hsame
  obtain ⟨payload', hpayload', hcore⟩ := Option.map_eq_some_iff.1 hsame.symm
  cases payload' with
  | nil => cases hcore
  | cons d others =>
    obtain ⟨rest, hrest⟩ : Text.core (d :: others) <+: d :: others := List.rdropWhile_prefix _ _
    rw [hcore] at hrest
    rw [hpayload', (List.cons.inj hrest).1]
    exact ⟨others, rfl⟩

theorem payloadOffset_of_core (h : Text.core s = Text.core t) {c : Char} {payload : Text}
    (hpayload : (ofText s).payload? = some (c :: payload)) :
    (ofText s).payloadOffset = (ofText t).payloadOffset := by
  obtain ⟨others, hothers⟩ := exists_payload_of_core h hpayload
  rw [← payloadOffset_bare (isRead_ofText s) hpayload, ← payloadOffset_bare (isRead_ofText t) hothers,
    bare_ofText_eq h]

end Line
end Reindent
