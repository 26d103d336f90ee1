import Reindent.Proofs.Text.Core
import Reindent.Pass.Step

/-!
# Reindent.Proofs.Line.Core

Reading a line does not see the carriage returns at its end.

* `Line.bare`    — a line without them.
* `ofText_core`  — it reads the same but for its text.
* `ofLine_bare`, `openKeyColumns?_bare` — an item starts the same entry and opens the same key.
-/

namespace Reindent
namespace Line

def bare (line : Line) : Line :=
  { line with text := Text.core line.text }

variable {line : Line}

theorem ofText_core (t : Text) : ofText (Text.core t) = (ofText t).bare := by
  have hmargin : (Text.core t).takeWhile (fun c => c == ' ' || c == '\t') =
      t.takeWhile fun c => c == ' ' || c == '\t' := Text.takeWhile_core (by decide) t
  simp only [ofText, Text.trim_core, hmargin, Text.indent_core, Text.drop_indent_core,
    Text.trimEnd_core]
  split
  · simp only [plain, bare, Text.indent_core]
  · split
    · simp only [plain, bare, Text.indent_core]
    · split
      · simp only [plain, bare, Text.indent_core]
      · split
        · simp only [ofItem, bare, Text.indent_core]
        · split
          · simp only [ofPair, bare, Text.indent_core]
          · simp only [plain, bare, Text.indent_core]

theorem IsRead.content_bare (h : line.IsRead) : line.bare.content = Text.core line.content := by
  have hdrop := Text.drop_indent_core line.text
  rw [← h.indent_eq] at hdrop
  exact hdrop

/-! ### Items -/

theorem trimEnd_dash (rest : Text) : Text.trimEnd ('-' :: rest) = '-' :: Text.trimEnd rest :=
  Text.trimEnd_append_of_not_blank (by decide) [] rest

theorem isItemBody_cons {body : Text} (h : isItemBody body = true) :
    ∃ rest, body = '-' :: rest := by
  cases body with
  | nil => cases h
  | cons c rest =>
    by_cases hc : '-' = c
    · exact ⟨rest, by rw [hc]⟩
    · simp [isItemBody, hc, Ne.symm hc] at h

theorem IsRead.eq_ofItem (h : line.IsRead) (hitem : line.isItem = true) :
    isItemBody (Text.trimEnd line.content) = true ∧
      line = ofItem line.text (Text.trimStart ((Text.trimEnd line.content).drop 1)) := by
  rw [content, h.indent_eq]
  rw [h] at hitem
  have hline : line = ofText line.text := h
  generalize line.text = text at hline hitem ⊢
  subst hline
  simp only [ofText] at hitem ⊢
  split at hitem
  · cases hitem
  · split at hitem
    · cases hitem
    · split at hitem
      · cases hitem
      · split at hitem
        · rename_i hempty htab hcomment hbody
          rw [if_neg hempty, if_neg htab, if_neg hcomment, if_pos hbody]
          exact ⟨hbody, rfl⟩
        · split at hitem
          · simp only [isItem, ofPair] at hitem
            split at hitem <;> cases hitem
          · cases hitem

/-- An item has its dash at the start of its content, and introduces the entry after it. -/
theorem IsRead.content_of_isItem (h : line.IsRead) (hitem : line.isItem = true) :
    ∃ rest, line.content = '-' :: rest ∧
      line.key = (Pair.ofText? (Text.trimStart (Text.trimEnd rest))).map Pair.key := by
  obtain ⟨hbody, hline⟩ := h.eq_ofItem hitem
  obtain ⟨trimmed, htrimmed⟩ := isItemBody_cons hbody
  obtain ⟨blanks, hprefix⟩ : Text.trimEnd line.content <+: line.content :=
    List.rdropWhile_prefix _ _
  rw [htrimmed, List.cons_append] at hprefix
  have hcontent := hprefix.symm
  generalize trimmed ++ blanks = rest at hcontent
  refine ⟨rest, hcontent, ?_⟩
  rw [hcontent, trimEnd_dash, List.drop_one, List.tail_cons] at hline
  rw [hline]
  rfl

theorem trimEnd_eq_nil {t : Text} (h : Text.trimStart t = []) : Text.trimEnd t = [] := by
  rw [Text.trimStart, List.dropWhile_eq_nil_iff] at h
  exact List.rdropWhile_eq_nil_iff.2 h

theorem payload?_eq {rest : Text} (hitem : line.isItem = true)
    (hcontent : line.content = '-' :: rest) :
    line.payload? = some (Text.trimStart rest) := by
  simp [payload?, hitem, hcontent, List.isPrefixOf?]

theorem payload?_of_not_item (hitem : line.isItem = false) : line.payload? = none := by
  simp [payload?, hitem]

theorem payload?_bare (h : line.IsRead) : line.bare.payload? = line.payload?.map Text.core := by
  cases hitem : line.isItem with
  | false =>
    rw [payload?_of_not_item hitem]
    exact payload?_of_not_item hitem
  | true =>
    obtain ⟨rest, hcontent, _⟩ := h.content_of_isItem hitem
    have hbare : line.bare.content = '-' :: Text.core rest := by
      rw [h.content_bare, hcontent, Text.core_cons (by decide)]
    have hitem' : line.bare.isItem = true := hitem
    rw [payload?_eq hitem hcontent, payload?_eq hitem' hbare, Text.trimStart_core, Option.map_some]

/-- The payload starts with a character that is not blank. -/
theorem payload_ne_return {rest : Text} {c : Char} {payload : Text}
    (h : Text.trimStart rest = c :: payload) : c ≠ '\r' := by
  intro hc
  have hdrop : rest.dropWhile Text.isBlank = c :: payload := h
  have hne : rest.dropWhile Text.isBlank ≠ [] := by
    rw [hdrop]
    exact List.cons_ne_nil _ _
  have hblank := List.head_dropWhile_not Text.isBlank hne
  simp only [hdrop, List.head_cons, hc] at hblank
  exact absurd hblank (by decide)

/-- A payload starts with no carriage return. -/
theorem IsRead.head_payload_ne_return (h : line.IsRead) {c : Char} {payload : Text}
    (hpayload : line.payload? = some (c :: payload)) : c ≠ '\r' := by
  cases hitem : line.isItem with
  | false =>
    rw [payload?_of_not_item hitem] at hpayload
    cases hpayload
  | true =>
    obtain ⟨rest, hcontent, _⟩ := h.content_of_isItem hitem
    rw [payload?_eq hitem hcontent, Option.some.injEq] at hpayload
    exact payload_ne_return hpayload

theorem payloadOffset_bare (h : line.IsRead) {c : Char} {payload : Text}
    (hpayload : line.payload? = some (c :: payload)) :
    line.bare.payloadOffset = line.payloadOffset := by
  cases hitem : line.isItem with
  | false =>
    rw [payload?_of_not_item hitem] at hpayload
    cases hpayload
  | true =>
    obtain ⟨rest, hcontent, _⟩ := h.content_of_isItem hitem
    rw [payload?_eq hitem hcontent, Option.some.injEq] at hpayload
    have hne : Text.trimStart rest ≠ [] := by
      rw [hpayload]
      exact List.cons_ne_nil _ _
    have hbare : line.bare.content = '-' :: Text.core rest := by
      rw [h.content_bare, hcontent, Text.core_cons (by decide)]
    have hitem' : line.bare.isItem = true := hitem
    have hwidth := Text.width_eq_add_trimStart rest
    have hwidth' := Text.width_eq_add_trimStart (Text.core rest)
    rw [Text.takeWhile_isBlank_core hne] at hwidth'
    rw [payloadOffset, payloadOffset, payload?_eq hitem hcontent, payload?_eq hitem' hbare,
      hcontent, hbare]
    simp only [Text.width_cons, Option.getD_some]
    omega

/-- A key after a dash is part of a payload. -/
theorem exists_payload (h : line.IsRead) (hitem : line.isItem = true)
    (hkey : line.key.isSome = true) : ∃ c payload, line.payload? = some (c :: payload) := by
  obtain ⟨rest, hcontent, hpair⟩ := h.content_of_isItem hitem
  rw [payload?_eq hitem hcontent]
  cases hpayload : Text.trimStart rest with
  | nil =>
    rw [hpair, trimEnd_eq_nil hpayload] at hkey
    exact absurd hkey (by decide)
  | cons c payload => exact ⟨c, payload, rfl⟩

theorem itemOpensKey_payload (h : line.IsRead) (hopens : line.itemOpensKey = true) :
    ∃ c payload, line.payload? = some (c :: payload) := by
  simp only [itemOpensKey, Bool.and_eq_true] at hopens
  exact exists_payload h hopens.1.1 hopens.1.2

theorem openKeyColumns?_bare (h : line.IsRead) (indent : Nat) :
    line.bare.openKeyColumns? indent = line.openKeyColumns? indent := by
  have hopens : line.bare.itemOpensKey = line.itemOpensKey := rfl
  simp only [openKeyColumns?, hopens]
  split
  · rename_i hitem
    obtain ⟨c, payload, hpayload⟩ := itemOpensKey_payload h hitem
    rw [payloadOffset_bare h hpayload]
    rfl
  · rfl

end Line

theorem Entry.ofLine_bare {line : Line} (h : line.IsRead) (output : Nat) :
    Entry.ofLine line.bare output = Entry.ofLine line output := by
  simp only [Entry.ofLine, Line.payload?_bare h]
  cases hpayload : line.payload? with
  | none => rfl
  | some payload =>
    cases payload with
    | nil => rfl
    | cons c payload =>
      have hc := h.head_payload_ne_return hpayload
      rw [Option.map_some, Text.core_cons hc, Line.payloadOffset_bare h hpayload]
      rfl

end Reindent
