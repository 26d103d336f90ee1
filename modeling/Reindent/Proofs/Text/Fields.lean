import Reindent.Text.Fields

/-!
# Reindent.Proofs.Text.Fields

The parts of a text between its separators.

* `not_mem_of_mem_fields` — no separator is inside a part.
* `mem_of_mem_fields`     — the parts are made of the text's characters.
* `fields_flatMap_lines`  — the lines of a text, and the nothing behind the last one.
-/

namespace Reindent
namespace Text

variable {separator : Char} {parts : List Text}

theorem isInfix_intercalate {part : Text} (h : part ∈ parts) :
    part <:+: [separator].intercalate parts := by
  induction parts with
  | nil => cases h
  | cons first rest ih =>
    cases rest with
    | nil =>
      cases List.mem_singleton.1 h
      simp
    | cons next rest =>
      rw [List.intercalate_cons_cons]
      rcases List.mem_cons.1 h with rfl | h
      · exact ((List.prefix_append _ _).trans (List.prefix_append _ _)).isInfix
      · exact (ih h).trans (List.suffix_append _ _).isInfix

theorem intercalate_concat (hne : parts ≠ []) (last : Text) :
    [separator].intercalate (parts ++ [last]) =
      [separator].intercalate parts ++ separator :: last := by
  induction parts with
  | nil => exact absurd rfl hne
  | cons part rest ih =>
    cases rest with
    | nil => simp
    | cons next rest =>
      rw [List.cons_append, List.intercalate_cons_of_ne_nil (by simp), ih (List.cons_ne_nil _ _),
        List.intercalate_cons_cons, List.append_assoc (part ++ [separator])]

theorem not_mem_of_mem_fields {t part : Text} (h : part ∈ fields separator t) :
    separator ∉ part := by
  induction t generalizing part with
  | nil =>
    rw [fields, List.splitOn_nil, List.mem_singleton] at h
    simp [h]
  | cons c t ih =>
    obtain ⟨first, others, hfields⟩ :=
      List.exists_cons_of_ne_nil (List.splitOn_ne_nil separator t)
    rw [fields, List.splitOn_cons_eq_if_modifyHead, hfields] at h
    rw [fields, hfields] at ih
    split at h
    · rcases List.mem_cons.1 h with rfl | h
      · simp
      · exact ih h
    case isFalse hc =>
      rcases List.mem_cons.1 h with rfl | h
      · have hc' : separator ≠ c := fun e => hc (by simp [e])
        simpa [hc'] using ih List.mem_cons_self
      · exact ih (List.mem_cons_of_mem _ h)

theorem mem_of_mem_fields {t part : Text} {c : Char} (h : part ∈ fields separator t)
    (hc : c ∈ part) : c ∈ t := by
  have hinfix : part <:+: [separator].intercalate (t.splitOn separator) := isInfix_intercalate h
  rw [List.intercalate_splitOn] at hinfix
  exact hinfix.subset hc

theorem width_le_width_intercalate (part : Text) (rest : List Text) :
    part.width ≤ width ([separator].intercalate (part :: rest)) := by
  cases rest with
  | nil => simp
  | cons next rest =>
    rw [List.intercalate_cons_cons, List.append_assoc, width_append]
    exact Nat.le_add_right _ _

theorem fields_flatMap_lines {lines : List Text} (h : ∀ line ∈ lines, separator ∉ line) :
    fields separator (lines.flatMap (· ++ [separator])) = lines ++ [[]] := by
  induction lines with
  | nil => rfl
  | cons line rest ih =>
    rw [List.forall_mem_cons] at h
    simp only [fields] at ih ⊢
    rw [List.flatMap_cons, List.append_assoc, List.singleton_append,
      List.splitOn_append_cons_self_of_not_mem h.1, ih h.2, List.cons_append]

end Text
end Reindent
