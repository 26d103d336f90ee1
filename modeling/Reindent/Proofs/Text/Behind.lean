import Reindent.Proofs.Text.Terminators
import Mathlib.Data.List.Forall2

/-!
# Reindent.Proofs.Text.Behind

A document with some of its lines behind more spaces.

* `RawLine.IsBehind`     — a line behind more spaces, unless it is empty.
* `splitLines_of_isBehind` — the document is read back as these lines.
-/

namespace Reindent

namespace RawLine

variable {raw raw' : RawLine}

/-- The line, `n` columns further to the right. -/
def displace (n : Nat) (raw : RawLine) : RawLine :=
  { raw with body := Text.spaces n ++ raw.body }

/-- `raw'` is `raw`, behind more spaces unless it is empty. -/
def IsBehind (raw raw' : RawLine) : Prop :=
  ∃ n, raw' = raw.displace n ∧ (raw.body = [] → n = 0)

theorem IsBehind.refl (raw : RawLine) : raw.IsBehind raw :=
  ⟨0, rfl, fun _ => rfl⟩

theorem IsBehind.not_mem_body (h : raw.IsBehind raw') (hfeed : '\n' ∉ raw.body) :
    '\n' ∉ raw'.body := by
  obtain ⟨n, rfl, _⟩ := h
  simp [displace, Text.spaces, hfeed]

theorem IsBehind.text_ne_nil (h : raw.IsBehind raw') (htext : raw.text ≠ []) : raw'.text ≠ [] := by
  obtain ⟨n, rfl, _⟩ := h
  rw [text, displace, List.append_assoc]
  exact List.append_ne_nil_of_right_ne_nil _ htext

/-- A line that is not empty ends in the same characters. -/
theorem IsBehind.reread (h : raw.IsBehind raw') (hreread : raw.reread = raw) :
    raw'.reread = raw' := by
  obtain ⟨n, rfl, hempty⟩ := h
  obtain ⟨body, ending⟩ := raw
  cases ending with
  | missing => rfl
  | crlf => rfl
  | lf =>
    by_cases hbody : body = []
    · rw [hempty hbody]
      exact hreread
    · have hlast : body.getLast? ≠ some '\r' := by
        rcases terminated_cases body with ⟨init, _, hterminated⟩ | ⟨hlast, _⟩
        · rw [RawLine.reread, hterminated] at hreread
          cases hreread
        · exact hlast
      refine terminated_of_ne ?_
      have hlast' : (Text.spaces n ++ body).getLast? = body.getLast? :=
        List.getLast?_append_of_ne_nil _ hbody
      exact hlast' ▸ hlast

theorem closed_of_isBehind {lines lines' : List RawLine} (h : List.Forall₂ IsBehind lines lines')
    (hclosed : Closed lines) : Closed lines' := by
  induction hclosed generalizing lines' with
  | nil =>
    cases h
    exact .nil
  | last hfeed =>
    cases h with
    | cons hline hrest =>
      cases hrest
      exact .last (hline.not_mem_body hfeed)
  | cons hfeed hending _ ih =>
    cases h with
    | cons hline hrest =>
      refine .cons (hline.not_mem_body hfeed) ?_ (ih hrest)
      obtain ⟨n, rfl, _⟩ := hline
      exact hending

end RawLine

/-- The lines of a document are read back behind more spaces. -/
theorem Text.splitLines_of_isBehind {text : Text} {lines : List RawLine}
    (h : List.Forall₂ RawLine.IsBehind text.splitLines lines) :
    splitLines (lines.flatMap RawLine.text) = lines := by
  have hlines : ∀ line ∈ lines, line.reread = line ∧ line.text ≠ [] := by
    intro line hline
    obtain ⟨i, hi, rfl⟩ := List.mem_iff_getElem.1 hline
    have hraw : i < text.splitLines.length := h.length_eq ▸ hi
    have hbehind := (List.forall₂_iff_get.1 h).2 i hraw hi
    have hmem : text.splitLines[i] ∈ text.splitLines := List.getElem_mem hraw
    exact ⟨hbehind.reread (reread_of_mem_splitLines hmem),
      hbehind.text_ne_nil (text_ne_nil_of_mem_splitLines hmem)⟩
  have hreread : lines.map RawLine.reread = lines.map id :=
    List.map_congr_left fun line hline => (hlines line hline).1
  rw [splitLines_flatMap_text (RawLine.closed_of_isBehind h (closed_splitLines text)),
    List.filter_eq_self.2 fun line hline => by simp [(hlines line hline).2], hreread, List.map_id]

end Reindent
