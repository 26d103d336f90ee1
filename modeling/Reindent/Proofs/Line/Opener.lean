import Reindent.Proofs.Line.Core

/-!
# Reindent.Proofs.Line.Opener

The keys that lines introduce, lines that open a block scalar, and lines without a part in the
structure.

* `keyColumn` — where the key stands that a line introduces.
* `openKeyColumns?_of_blockScalar` — a line that opens a block scalar leaves no key open.
* `not_isStructural_of_trim` — what reads as a blank line or a comment does so at any column.
-/

namespace Reindent
namespace Line

/-- The column of the key that a line introduces if it is written at the column `indent`: that of
the line, or for an item that of what follows the dash. -/
def keyColumn (line : Line) (indent : Nat) : Nat :=
  if line.isItem then indent + line.payloadOffset else indent

variable {line : Line}

theorem keyColumn_of_not_isItem (h : line.isItem = false) (indent : Nat) :
    line.keyColumn indent = indent := by
  rw [keyColumn, h, if_neg Bool.false_ne_true]

theorem le_keyColumn (line : Line) (indent : Nat) : indent ≤ line.keyColumn indent := by
  rw [keyColumn]
  split <;> omega

theorem eq_keyColumn_of_openKeyColumns? {indent column base : Nat}
    (h : line.openKeyColumns? indent = some (column, base)) :
    column = line.keyColumn line.indent ∧ base = line.keyColumn indent := by
  simp only [openKeyColumns?] at h
  split at h
  · rename_i hopens
    simp only [itemOpensKey, Bool.and_eq_true] at hopens
    cases h
    rw [keyColumn, keyColumn, if_pos hopens.1.1, if_pos hopens.1.1]
    exact ⟨rfl, rfl⟩
  · split at h
    · rename_i hkey
      have hother : line.isItem = false := by
        rw [isItem, beq_iff_eq.1 hkey]
        rfl
      cases h
      rw [keyColumn_of_not_isItem hother, keyColumn_of_not_isItem hother]
      exact ⟨rfl, rfl⟩
    · cases h

/-! ### Block scalars -/

/-- The header of a block scalar introduces no key. -/
theorem not_isBlockHeader_of_pair {payload : Text} {pair : Pair}
    (h : Pair.ofText? payload = some pair) : isBlockHeader payload = false := by
  have hstarts : ∃ c rest, payload = c :: rest ∧ Text.isBlank c = false ∧
      (c == '|' || c == '>') = false := by
    simp only [Pair.ofText?, Option.bind_eq_bind, Option.bind_eq_some_iff] at h
    obtain ⟨⟨key, after⟩, hkey, _⟩ := h
    simp only [Pair.splitKey?] at hkey
    split at hkey
    · cases hkey
    · exact ⟨'"', _, rfl, by decide, by decide⟩
    · exact ⟨'\'', _, rfl, by decide, by decide⟩
    · exact ⟨'-', _, rfl, by decide, by decide⟩
    · rename_i c rest _ _ _
      split at hkey
      · rename_i hplain
        simp only [Pair.startsPlain, Bool.and_eq_true, Bool.not_eq_true'] at hplain
        refine ⟨c, rest, rfl, hplain.1, ?_⟩
        rw [Bool.or_eq_false_iff, beq_eq_false_iff_ne, beq_eq_false_iff_ne]
        constructor
        · rintro rfl
          exact absurd hplain.2 (by decide)
        · rintro rfl
          exact absurd hplain.2 (by decide)
      · cases hkey
  obtain ⟨c, rest, rfl, hblank, hheader⟩ := hstarts
  have htrim : ∃ rest', Text.trim (c :: rest) = c :: rest' := by
    have hstart : Text.trimStart (c :: rest) = c :: rest := by
      rw [Text.trimStart, List.dropWhile_cons_of_neg (by simp [hblank])]
    rw [Text.trim, hstart, Text.trimEnd, List.reverse_cons, List.dropWhile_append]
    split
    · simp [hblank]
    · simp
  obtain ⟨rest', htrim⟩ := htrim
  simp only [isBlockHeader, htrim, hheader, Bool.false_and]

theorem IsRead.eq_ofPair (h : line.IsRead) (hkey : line.category = .key) :
    ∃ pair, line = ofPair line.text pair ∧ pair.value = none := by
  rw [h] at hkey
  have hline : line = ofText line.text := h
  generalize line.text = text at hline hkey ⊢
  subst hline
  simp only [ofText] at hkey ⊢
  split at hkey
  · cases hkey
  · split at hkey
    · cases hkey
    · split at hkey
      · cases hkey
      · split at hkey
        · cases hkey
        · split at hkey
          · rename_i hempty htab hcomment hitem _ pair _
            rw [if_neg hempty, if_neg htab, if_neg hcomment, if_neg hitem]
            refine ⟨pair, rfl, ?_⟩
            simp only [ofPair] at hkey
            split at hkey
            · rename_i hvalue
              exact Option.isNone_iff_eq_none.1 hvalue
            · cases hkey
          · cases hkey

theorem openKeyColumns?_of_blockScalar (h : line.IsRead) (hscalar : line.blockScalar = true)
    (indent : Nat) : line.openKeyColumns? indent = none := by
  simp only [openKeyColumns?]
  split
  · rename_i hopens
    simp only [itemOpensKey, Bool.and_eq_true] at hopens
    obtain ⟨_, hline⟩ := h.eq_ofItem hopens.1.1
    generalize Text.trimStart ((Text.trimEnd line.content).drop 1) = payload at hline
    rw [hline] at hopens hscalar
    simp only [ofItem] at hopens hscalar
    cases hpair : Pair.ofText? payload with
    | none => simp [hpair] at hopens
    | some pair =>
      have hvalue : pair.value = none := by simpa [hpair] using hopens.2
      rw [hpair, Option.bind_some, hvalue, Option.getD_none, not_isBlockHeader_of_pair hpair]
        at hscalar
      cases hscalar
  · split
    · rename_i hkey
      obtain ⟨pair, hline, hvalue⟩ := h.eq_ofPair (beq_iff_eq.1 hkey)
      rw [hline] at hscalar
      simp [ofPair, hvalue] at hscalar
    · rfl

/-! ### Trivia -/

theorem IsRead.not_isStructural_of_trim {trivia : Line} (h : line.IsRead) (htrivia : trivia.IsRead)
    (hline : trivia.isTrivia = true) (htrim : Text.trim line.text = Text.trim trivia.text) :
    line.isStructural = false := by
  have hstarts : (Text.trim trivia.text).isEmpty = true ∨
      ['#'].isPrefixOf (Text.trim trivia.text) = true := by
    rw [htrivia] at hline
    simp only [ofText] at hline
    split at hline
    · exact .inl ‹_›
    · split at hline
      · cases hline
      · split at hline
        · exact .inr ‹_›
        · split at hline
          · cases hline
          · split at hline
            · rename_i pair _
              cases hvalue : pair.value <;> simp [ofPair, isTrivia, hvalue] at hline
            · cases hline
  rw [← htrim] at hstarts
  rw [h]
  rcases hstarts with hempty | hcomment
  · simp only [ofText, if_pos hempty]
    rfl
  · simp only [ofText]
    split
    · rfl
    · split
      · rfl
      · rfl

end Line
end Reindent
