import Reindent.Proofs.Line.Key
import Reindent.Proofs.Line.Pattern

/-!
# Reindent.Proofs.Line.KeyPattern

Entries read by a pattern.

* `Pair.pattern`      — the pattern of a line that introduces an entry.
* `Pair.ofGroups`     — the entry of a way to take it.
* `ofGroups_of_way`, `exists_way` — the ways are the spellings of the grammar, but for the blanks
  between the key and the colon.
* `ofText?_grammar`   — reading in one go finds what the pattern finds, and that is the one spelling
  of the grammar.
-/

namespace Reindent
namespace Pair

open Text (isBlank)

inductive Group where
  | key
  | value
  deriving DecidableEq, Repr

/-- Characters between two quotation marks. -/
def quotedPattern (q : Char) : Pattern Group :=
  .seq (.one (· == q)) (.seq (.most (· != q)) (.one (· == q)))

/-- A quoted key, or as little as possible of a plain one. -/
def keyPattern : Pattern Group :=
  .either (quotedPattern '"') <| .either (quotedPattern '\'') <|
    .either (.seq (.one startsPlain) (.fewest continuesPlain)) <|
      .seq (.one (· == '-')) (.seq (.one followsDash) (.fewest continuesPlain))

/-- Blanks and a value, to the end of the text. -/
def valuePattern : Pattern Group :=
  .seq (.possibly (.seq (.one isBlank) (.seq (.most isBlank) (.group .value (.most (· != '\n'))))))
    .finish

/-- A key, blanks, a colon, and then the end of the text or blanks and a value. -/
def pattern : Pattern Group :=
  .seq (.group .key keyPattern) (.seq (.most isBlank) (.seq (.one (· == ':')) valuePattern))

/-- The entry of a way to take the pattern: the key and the value, trimmed. A value that is empty
or a comment is none. -/
def ofGroups (groups : Groups Group) : Pair where
  key := Text.trim ((groups.lookup .key).getD [])
  value := ((groups.lookup .value).map Text.trim).filter fun value =>
    !value.isEmpty && value.head? != some '#'

variable {s key blanks tail taken rest : Text} {groups : Groups Group} {pair : Pair}

/-! ### Values -/

theorem filter_trim (tail : Text) :
    (some (Text.trim tail)).filter (fun value => !value.isEmpty && value.head? != some '#') =
      valueIn tail := by
  rw [valueIn, Option.filter_some]
  by_cases h : Text.trim tail = [] ∨ (Text.trim tail).head? = some '#'
  · rw [if_pos h, if_neg]
    rcases h with h | h <;> simp [h]
  · rw [if_pos, if_neg h]
    simpa [not_or] using h

theorem takes_valuePattern :
    valuePattern.Takes tail groups rest ↔
      rest = [] ∧ (tail = [] ∧ groups = [] ∨
        ∃ gap value, tail = gap ++ value ∧ gap ≠ [] ∧ (∀ c ∈ gap, isBlank c = true) ∧
          '\n' ∉ value ∧ groups = [(.value, value)]) := by
  constructor
  · rintro ⟨front, back, inner, outer, rfl, rfl, hfront, rfl, rfl, rfl⟩
    refine ⟨rfl, ?_⟩
    rw [List.append_nil, List.append_nil]
    rcases hfront with ⟨_, _, _, _, rfl, rfl, ⟨c, hc, rfl, rfl⟩, _, value, _, _, rfl, rfl,
      ⟨hmost, rfl⟩, _, rfl, hvalue, rfl⟩ | ⟨rfl, rfl⟩
    · refine .inr ⟨_, value, (List.append_assoc ..).symm, List.cons_ne_nil _ _, ?_, ?_, rfl⟩
      · exact List.forall_mem_cons.2 ⟨hc, hmost⟩
      · intro hfeed
        simpa using hvalue _ hfeed
    · exact .inl ⟨rfl, rfl⟩
  · rintro ⟨rfl, ⟨rfl, rfl⟩ | ⟨gap, value, rfl, hne, hgap, hfeed, rfl⟩⟩
    · exact ⟨[], [], [], [], rfl, rfl, .inr ⟨rfl, rfl⟩, rfl, rfl, rfl⟩
    · obtain ⟨c, gap, rfl⟩ := List.exists_cons_of_ne_nil hne
      rw [List.forall_mem_cons] at hgap
      have hvalue : ∀ c ∈ value, (c != '\n') = true := fun c hc => by
        rw [bne_iff_ne]
        rintro rfl
        exact hfeed hc
      exact ⟨c :: gap ++ value, [], [(.value, value)], [], by simp, rfl,
        .inl ⟨[c], gap ++ value, [], [(.value, value)], rfl, rfl, ⟨c, hgap.1, rfl, rfl⟩,
          gap, value, [], [(.value, value)], rfl, rfl, ⟨hgap.2, rfl⟩, [], rfl, hvalue, rfl⟩,
        rfl, rfl, rfl⟩

/-! ### Keys -/

theorem takes_quotedPattern {q : Char} :
    (quotedPattern q).Takes taken groups rest ↔
      groups = [] ∧ ∃ inner, q ∉ inner ∧ taken = q :: inner ++ [q] := by
  constructor
  · rintro ⟨_, _, _, _, rfl, rfl, ⟨c, hc, rfl, rfl⟩, inner, _, _, _, rfl, rfl, ⟨hinner, rfl⟩,
      d, hd, rfl, rfl⟩
    rw [beq_iff_eq.1 hc, beq_iff_eq.1 hd]
    refine ⟨rfl, inner, fun hmem => ?_, rfl⟩
    simpa using hinner _ hmem
  · rintro ⟨rfl, inner, hinner, rfl⟩
    have hall : ∀ c ∈ inner, (c != q) = true := fun c hc => by
      rw [bne_iff_ne]
      rintro rfl
      exact hinner hc
    exact ⟨[q], inner ++ [q], [], [], rfl, rfl, ⟨q, beq_self_eq_true q, rfl, rfl⟩, inner, [q], [],
      [], rfl, rfl, ⟨hall, rfl⟩, q, beq_self_eq_true q, rfl, rfl⟩

/-- A quoted key is taken whole, and of a plain one any part behind its head. -/
theorem takes_keyPattern :
    keyPattern.Takes taken groups rest ↔
      groups = [] ∧ (IsQuoted taken ∨
        ∃ head others, IsHead head ∧ taken = head ++ others ∧
          ∀ c ∈ others, continuesPlain c = true) := by
  constructor
  · rintro (h | h | ⟨_, others, _, _, rfl, rfl, ⟨c, hc, rfl, rfl⟩, hothers, rfl⟩ |
      ⟨_, _, _, _, rfl, rfl, ⟨d, hd, rfl, rfl⟩, _, others, _, _, rfl, rfl, ⟨c, hc, rfl, rfl⟩,
        hothers, rfl⟩)
    · obtain ⟨rfl, inner, hinner, rfl⟩ := takes_quotedPattern.1 h
      exact ⟨rfl, .inl (.double hinner)⟩
    · obtain ⟨rfl, inner, hinner, rfl⟩ := takes_quotedPattern.1 h
      exact ⟨rfl, .inl (.single hinner)⟩
    · exact ⟨rfl, .inr ⟨[c], others, .character (startsPlain_iff.1 hc).1 (startsPlain_iff.1 hc).2,
        rfl, hothers⟩⟩
    · rw [beq_iff_eq.1 hd]
      exact ⟨rfl, .inr ⟨['-', c], others, .dash (followsDash_iff.1 hc).1 (followsDash_iff.1 hc).2,
        rfl, hothers⟩⟩
  · rintro ⟨rfl, hquoted | ⟨head, others, hhead, rfl, hothers⟩⟩
    · cases hquoted with
      | double hinner => exact .inl (takes_quotedPattern.2 ⟨rfl, _, hinner, rfl⟩)
      | single hinner => exact .inr (.inl (takes_quotedPattern.2 ⟨rfl, _, hinner, rfl⟩))
    · cases hhead with
      | @character c hblank hother =>
        exact .inr (.inr (.inl ⟨[c], others, [], [], rfl, rfl,
          ⟨c, startsPlain_iff.2 ⟨hblank, hother⟩, rfl, rfl⟩, hothers, rfl⟩))
      | @dash c hblank hcolon =>
        exact .inr (.inr (.inr ⟨['-'], c :: others, [], [], rfl, rfl, ⟨'-', by decide, rfl, rfl⟩,
          [c], others, [], [], rfl, rfl, ⟨c, followsDash_iff.2 ⟨hblank, hcolon⟩, rfl, rfl⟩,
          hothers, rfl⟩))

/-! ### Ways and spellings -/

theorem isKey_of_takes (h : keyPattern.Takes taken groups rest) :
    ∃ blanks, (∀ c ∈ blanks, isBlank c = true) ∧ taken = Text.trim taken ++ blanks ∧
      IsKey (Text.trim taken) := by
  obtain ⟨-, hquoted | ⟨head, others, hhead, rfl, hothers⟩⟩ := takes_keyPattern.1 h
  · refine ⟨[], nofun, ?_⟩
    rw [hquoted.trim, List.append_nil]
    exact ⟨rfl, .inl hquoted⟩
  · obtain ⟨blanks, hblanks, hsplit⟩ := Text.exists_blanks_trimEnd others
    have hlast := Text.trimEnd_eq_self_iff.1 (Text.trimEnd_trimEnd (head ++ others))
    rw [hhead.trimEnd_append] at hlast
    refine ⟨blanks, hblanks, ?_⟩
    rw [hhead.trim_append, List.append_assoc, ← hsplit]
    refine ⟨rfl, .inr (.mk hhead (fun c hc => continuesPlain_iff.1 (hothers c ?_)) hlast)⟩
    rw [hsplit]
    exact List.mem_append_left blanks hc

theorem ofGroups_of_way (h : (groups, rest) ∈ pattern.ways s) :
    ∃ blanks tail, Spells s (ofGroups groups).key blanks tail ∧ '\n' ∉ Text.trimStart tail ∧
      (ofGroups groups).value = valueIn tail := by
  obtain ⟨_, rfl, raw, _, _, _, rfl, rfl, ⟨inner, rfl, hkey⟩, between, _, _, _, rfl, rfl,
    ⟨hbetween, rfl⟩, _, tail, _, _, rfl, rfl, ⟨c, hc, rfl, rfl⟩, htakes⟩ := Pattern.mem_ways_iff.1 h
  obtain ⟨rfl, -⟩ := takes_keyPattern.1 hkey
  obtain ⟨blanks, hblanks, hraw, hiskey⟩ := isKey_of_takes hkey
  obtain ⟨rfl, hvalue⟩ := takes_valuePattern.1 htakes
  have htext : raw ++ (between ++ ([c] ++ tail)) ++ [] =
      Text.trim raw ++ (blanks ++ between) ++ ':' :: tail := by
    rw [beq_iff_eq.1 hc, ← List.append_assoc (Text.trim raw), ← hraw]
    simp
  have hgap : ∀ c ∈ blanks ++ between, isBlank c = true := by
    intro c hc
    rcases List.mem_append.1 hc with hc | hc
    · exact hblanks c hc
    · exact hbetween c hc
  refine ⟨blanks ++ between, tail, ?_⟩
  rcases hvalue with ⟨rfl, rfl⟩ | ⟨gap, value, rfl, hne, hgap', hfeed, rfl⟩
  · exact ⟨⟨htext, hiskey, hgap, nofun⟩, List.not_mem_nil, rfl⟩
  · have hstarts : ∀ c, (gap ++ value).head? = some c → isBlank c = true := by
      obtain ⟨d, gap, rfl⟩ := List.exists_cons_of_ne_nil hne
      rintro c hc
      cases hc
      exact hgap' d List.mem_cons_self
    refine ⟨⟨htext, hiskey, hgap, hstarts⟩, ?_, ?_⟩
    · rw [Text.trimStart_append hgap']
      exact fun hmem => hfeed ((List.dropWhile_suffix isBlank).subset hmem)
    · rw [← filter_trim, Text.trim_append hgap']
      rfl

theorem exists_way (h : Spells s key blanks tail) (hfeed : '\n' ∉ Text.trimStart tail) :
    ∃ groups rest, (groups, rest) ∈ pattern.ways s := by
  obtain ⟨rfl, hkey, hblanks, htail⟩ := h
  have hkey : keyPattern.Takes key [] (blanks ++ ':' :: tail) := by
    refine takes_keyPattern.2 ⟨rfl, hkey.imp_right ?_⟩
    rintro ⟨hhead, hrest, -⟩
    exact ⟨_, _, hhead, rfl, fun c hc => continuesPlain_iff.2 (hrest c hc)⟩
  have hvalue : ∃ others, valuePattern.Takes tail others [] := by
    cases tail with
    | nil => exact ⟨[], takes_valuePattern.2 ⟨rfl, .inl ⟨rfl, rfl⟩⟩⟩
    | cons c tail =>
      have hc := htail c rfl
      obtain ⟨gap, hgap, hsplit⟩ := Text.exists_blanks_trimStart tail
      have htrim : Text.trimStart (c :: tail) = Text.trimStart tail :=
        List.dropWhile_cons_of_pos hc
      rw [htrim] at hfeed
      refine ⟨_, takes_valuePattern.2 ⟨rfl, .inr ⟨c :: gap, Text.trimStart tail, ?_,
        List.cons_ne_nil _ _, List.forall_mem_cons.2 ⟨hc, hgap⟩, hfeed, rfl⟩⟩⟩
      rw [List.cons_append, ← hsplit]
  obtain ⟨others, hvalue⟩ := hvalue
  refine ⟨_, [], Pattern.mem_ways_iff.2 ⟨_, (List.append_nil _).symm, key, blanks ++ ':' :: tail,
    [(.key, key)], others, List.append_assoc .., rfl, ⟨[], rfl, ?_⟩, blanks, ':' :: tail, [],
    others, rfl, rfl, ⟨hblanks, rfl⟩, [':'], tail, [], others, rfl, rfl, ⟨':', by decide, rfl, rfl⟩,
    hvalue⟩⟩
  rwa [List.append_nil]

theorem ofText?_of_way (h : (groups, rest) ∈ pattern.ways s) : ofText? s = some (ofGroups groups) :=
  ofText?_eq_some_iff.2 (ofGroups_of_way h)

theorem ofText?_eq_first? (s : Text) : ofText? s = (pattern.first? s).map ofGroups := by
  cases hfirst : pattern.first? s with
  | none =>
    rw [Option.map_none, Option.eq_none_iff_forall_ne_some]
    intro pair hpair
    obtain ⟨blanks, tail, hspells, hfeed, -⟩ := ofText?_eq_some_iff.1 hpair
    obtain ⟨groups, rest, hway⟩ := exists_way hspells hfeed
    exact Pattern.first?_eq_none_iff.1 hfirst groups rest hway
  | some groups =>
    obtain ⟨rest, hway⟩ := Pattern.exists_way_of_first? hfirst
    exact ofText?_of_way hway

/-- In a text without line feeds, an entry is read exactly where the text is a key of the grammar,
blanks, a colon, and nothing or a blank behind it. There is one such spelling at most, its key ends
in front of the first colon unless it is quoted, and a search for the pattern finds it whatever it
tries first. -/
theorem ofText?_grammar (hfeed : '\n' ∉ s) :
    (∀ pair, ofText? s = some pair ↔
      ∃ blanks tail, Spells s pair.key blanks tail ∧ pair.value = valueIn tail) ∧
    (∀ key blanks tail key' blanks' tail', Spells s key blanks tail →
      Spells s key' blanks' tail' → key = key' ∧ blanks = blanks' ∧ tail = tail') ∧
    (∀ key blanks tail, Spells s key blanks tail → IsPlain key →
      s.takeWhile (· != ':') = key ++ blanks) ∧
    ofText? s = (pattern.first? s).map ofGroups ∧
    ∀ groups rest, (groups, rest) ∈ pattern.ways s → ofText? s = some (ofGroups groups) := by
  have htail : ∀ key blanks tail, Spells s key blanks tail → '\n' ∉ Text.trimStart tail := by
    rintro key blanks tail ⟨rfl, -, -, -⟩ hmem
    have htail : '\n' ∈ tail := (List.dropWhile_suffix isBlank).subset hmem
    exact hfeed (List.mem_append_right _ (List.mem_cons_of_mem _ htail))
  refine ⟨fun pair => ?_, fun _ _ _ _ _ _ => Spells.unique,
    fun _ _ _ => Spells.takeWhile_colon, ofText?_eq_first? s, fun _ _ => ofText?_of_way⟩
  rw [ofText?_eq_some_iff]
  constructor
  · rintro ⟨blanks, tail, hspells, -, hvalue⟩
    exact ⟨blanks, tail, hspells, hvalue⟩
  · rintro ⟨blanks, tail, hspells, hvalue⟩
    exact ⟨blanks, tail, hspells, htail _ _ _ hspells, hvalue⟩

/-- A hash sign right after a dash, blanks in the key and in front of the colon, and a colon in the
value. -/
def dashedEntry : Text :=
  "-#a b  : c: d ".toList

theorem ofText?_grammar_dashedEntry :
    '\n' ∉ dashedEntry ∧
      Spells dashedEntry "-#a b".toList "  ".toList " c: d ".toList ∧
      ofText? dashedEntry = some ⟨"-#a b".toList, some "c: d".toList⟩ ∧
      dashedEntry.takeWhile (· != ':') = "-#a b".toList ++ "  ".toList ∧
      ofText? dashedEntry = (pattern.first? dashedEntry).map ofGroups := by
  have hplain : IsPlain (['-', '#'] ++ "a b".toList) := by
    refine .mk (.dash (by decide) (by decide)) (by simp) fun c hc => ?_
    cases hc
    decide
  have hspells : Spells dashedEntry "-#a b".toList "  ".toList " c: d ".toList := by
    refine ⟨by decide, .inr hplain, List.all_eq_true.1 (by decide), fun c hc => ?_⟩
    cases hc
    decide
  have hfeed : '\n' ∉ dashedEntry := by decide
  obtain ⟨hread, -, hcolon, hfirst, -⟩ := ofText?_grammar hfeed
  exact ⟨hfeed, hspells, (hread _).2 ⟨_, _, hspells, by decide⟩, hcolon _ _ _ hspells hplain, hfirst⟩

end Pair
end Reindent
