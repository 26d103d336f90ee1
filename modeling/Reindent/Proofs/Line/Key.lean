import Reindent.Line.Pair
import Reindent.Proofs.Text.Trim

/-!
# Reindent.Proofs.Line.Key

The grammar of the entries that lines introduce.

* `Pair.IsKey`   — a key: quoted, or plain.
* `Pair.Spells`  — a text as a key, blanks, a colon and what follows it.
* `Spells.splitKey?`, `spells_of_splitKey?` — the key that is read is the one of the grammar.
* `Spells.unique` — a text is spelled in one way at most.
* `ofText?_eq_some_iff` — an entry is read exactly where the grammar has one.
-/

namespace Reindent

namespace Pair

open Text (isBlank)

/-! ### The grammar -/

/-- A key between quotation marks of one kind, with none of that kind inside. -/
inductive IsQuoted : Text → Prop where
  | double {inner : Text} : '"' ∉ inner → IsQuoted ('"' :: inner ++ ['"'])
  | single {inner : Text} : '\'' ∉ inner → IsQuoted ('\'' :: inner ++ ['\''])

/-- How a plain key starts. -/
inductive IsHead : Text → Prop where
  | character {c : Char} : isBlank c = false → c ∉ indicators → IsHead [c]
  | dash {c : Char} : isBlank c = false → c ≠ ':' → IsHead ['-', c]

/-- A key without quotation marks. It has no colon, no hash sign but for one right after a leading
dash, and no blank at its end. -/
inductive IsPlain : Text → Prop where
  | mk {head rest : Text} : IsHead head → (∀ c ∈ rest, c ≠ ':' ∧ c ≠ '#') →
      (∀ c, (head ++ rest).getLast? = some c → isBlank c = false) → IsPlain (head ++ rest)

def IsKey (key : Text) : Prop :=
  IsQuoted key ∨ IsPlain key

/-- The text is a key, blanks and a colon, and `tail` follows, which is empty or starts with a
blank. -/
structure Spells (s key blanks tail : Text) : Prop where
  text : s = key ++ blanks ++ ':' :: tail
  isKey : IsKey key
  blanks : ∀ c ∈ blanks, isBlank c = true
  tail : ∀ c, tail.head? = some c → isBlank c = true

/-- The value in what follows the colon. -/
def valueIn (tail : Text) : Option Text :=
  if Text.trim tail = [] ∨ (Text.trim tail).head? = some '#' then none else some (Text.trim tail)

variable {s key key' blanks blanks' tail tail' after head : Text} {pair : Pair}

/-! ### Keys -/

theorem continuesPlain_iff {c : Char} : continuesPlain c = true ↔ c ≠ ':' ∧ c ≠ '#' := by
  simp [continuesPlain]

theorem startsPlain_iff {c : Char} :
    startsPlain c = true ↔ isBlank c = false ∧ c ∉ indicators := by
  simp [startsPlain]

theorem followsDash_iff {c : Char} : followsDash c = true ↔ isBlank c = false ∧ c ≠ ':' := by
  simp [followsDash]

theorem continuesPlain_of_isBlank {c : Char} (h : isBlank c = true) : continuesPlain c = true := by
  rw [continuesPlain_iff]
  constructor <;> rintro rfl <;> exact absurd h (by decide)

theorem IsHead.concat (h : IsHead head) : ∃ init c, head = init ++ [c] ∧ isBlank c = false := by
  cases h with
  | @character c hc _ => exact ⟨[], c, rfl, hc⟩
  | @dash c hc _ => exact ⟨['-'], c, rfl, hc⟩

theorem IsHead.trimEnd_append (h : IsHead head) (rest : Text) :
    Text.trimEnd (head ++ rest) = head ++ Text.trimEnd rest := by
  obtain ⟨init, c, rfl, hc⟩ := h.concat
  rw [List.append_assoc, List.append_assoc]
  exact Text.trimEnd_append_of_not_blank hc init rest

theorem IsHead.trim_append (h : IsHead head) (rest : Text) :
    Text.trim (head ++ rest) = head ++ Text.trimEnd rest := by
  have hstart : Text.trimStart (head ++ rest) = head ++ rest := by
    cases h with
    | character hblank _ => exact Text.trimStart_of_not_blank hblank _
    | dash _ _ => exact Text.trimStart_of_not_blank (by decide) _
  rw [Text.trim, hstart, h.trimEnd_append]

theorem IsQuoted.trim (h : IsQuoted key) : Text.trim key = key := by
  have hmarks : ∀ (q : Char) (inner : Text), isBlank q = false →
      Text.trim (q :: inner ++ [q]) = q :: inner ++ [q] := by
    intro q inner hq
    rw [Text.trim, List.cons_append, Text.trimStart_of_not_blank hq, ← List.cons_append,
      Text.trimEnd_append_of_not_blank hq]
    rfl
  cases h with
  | double _ => exact hmarks '"' _ (by decide)
  | single _ => exact hmarks '\'' _ (by decide)

theorem IsHead.splitKey?_append (h : IsHead head) (rest : Text) :
    splitKey? (head ++ rest) = some (splitKey?.plain head rest) := by
  cases h with
  | @character c hblank hother =>
    have hstarts := startsPlain_iff.2 ⟨hblank, hother⟩
    have hne : ∀ d ∈ indicators, c ≠ d := fun d hd heq => hother (heq ▸ hd)
    unfold splitKey?
    split
    · rename_i heq
      cases heq
    · rename_i heq
      exact absurd (List.cons.inj heq).1 (hne '"' (by decide))
    · rename_i heq
      exact absurd (List.cons.inj heq).1 (hne '\'' (by decide))
    · rename_i heq
      exact absurd (List.cons.inj heq).1 (hne '-' (by decide))
    · rename_i heq
      obtain ⟨rfl, rfl⟩ := List.cons.inj heq
      rw [if_pos hstarts]
      rfl
  | @dash c hblank hcolon =>
    simp [splitKey?, followsDash_iff.2 ⟨hblank, hcolon⟩]

theorem splitKey?_quoted {q : Char} {inner : Text} (hinner : q ∉ inner) (after : Text) :
    splitKey?.quoted q (inner ++ q :: after) = some (q :: inner ++ [q], after) := by
  have hskip : ∀ c ∈ inner, (c != q) = true := fun c hc => by
    simpa using fun heq : c = q => hinner (heq ▸ hc)
  have hdrop : (inner ++ q :: after).dropWhile (· != q) = q :: after := by
    rw [List.dropWhile_append_of_pos hskip, List.dropWhile_cons_of_neg (by simp)]
  have htake : (inner ++ q :: after).takeWhile (· != q) = inner := by
    rw [List.takeWhile_append_of_pos hskip, List.takeWhile_cons_of_neg (by simp), List.append_nil]
  rw [splitKey?.quoted, hdrop, htake]

/-- The key of a spelling is the one that is read, and only blanks are left before the colon. -/
theorem Spells.splitKey? (h : Spells s key blanks tail) :
    ∃ after, Pair.splitKey? s = some (key, after) ∧ Text.trimStart after = ':' :: tail := by
  obtain ⟨rfl, hkey, hblanks, -⟩ := h
  have hcolon : Text.trimStart (blanks ++ ':' :: tail) = ':' :: tail := by
    rw [Text.trimStart_append hblanks, Text.trimStart_of_not_blank (by decide)]
  rw [List.append_assoc]
  rcases hkey with hquoted | ⟨hhead, hrest, hlast⟩
  · refine ⟨blanks ++ ':' :: tail, ?_, hcolon⟩
    cases hquoted with
    | double hinner =>
      rw [List.append_assoc, List.cons_append]
      exact splitKey?_quoted hinner _
    | single hinner =>
      rw [List.append_assoc, List.cons_append]
      exact splitKey?_quoted hinner _
  · rename_i head rest
    have hall : ∀ c ∈ rest ++ blanks, continuesPlain c = true := by
      intro c hc
      rcases List.mem_append.1 hc with hc | hc
      · exact continuesPlain_iff.2 (hrest c hc)
      · exact continuesPlain_of_isBlank (hblanks c hc)
    have htake : (rest ++ blanks ++ ':' :: tail).takeWhile continuesPlain = rest ++ blanks := by
      rw [List.takeWhile_append_of_pos hall, List.takeWhile_cons_of_neg (by decide),
        List.append_nil]
    have hdrop : (rest ++ blanks ++ ':' :: tail).dropWhile continuesPlain = ':' :: tail := by
      rw [List.dropWhile_append_of_pos hall, List.dropWhile_cons_of_neg (by decide)]
    have htrim : Text.trimEnd (head ++ (rest ++ blanks)) = head ++ rest := by
      rw [← List.append_assoc, Text.trimEnd_append hblanks, Text.trimEnd_eq_self_iff]
      exact hlast
    refine ⟨':' :: tail, ?_, Text.trimStart_of_not_blank (by decide) tail⟩
    rw [List.append_assoc, ← List.append_assoc rest, hhead.splitKey?_append, splitKey?.plain,
      htake, hdrop, htrim]

/-! ### Reading -/

theorem isQuoted_of_quoted {q : Char} {rest : Text} (hq : q = '"' ∨ q = '\'')
    (h : splitKey?.quoted q rest = some (key, after)) :
    IsQuoted key ∧ q :: rest = key ++ after := by
  simp only [splitKey?.quoted] at h
  split at h
  · cases h
  · rename_i c tail hdrop
    cases h
    have hsplit := List.takeWhile_append_dropWhile (p := (· != q)) (l := rest)
    have hc : c = q := by
      have hhead := List.head?_dropWhile_not (· != q) rest
      rw [hdrop] at hhead
      simpa using hhead
    have hinner : q ∉ rest.takeWhile (· != q) := fun hmem => by
      simpa using List.mem_takeWhile_imp hmem
    rw [hdrop, hc] at hsplit
    refine ⟨?_, ?_⟩
    · rcases hq with rfl | rfl
      · exact .double hinner
      · exact .single hinner
    · conv => lhs; rw [← hsplit]
      simp

/-- A key that is read is quoted and ends with its mark, or it is plain and goes on as far as it
can. -/
theorem splitKey?_cases (h : Pair.splitKey? s = some (key, after)) :
    (IsQuoted key ∧ s = key ++ after) ∨
      ∃ head rest, IsHead head ∧ s = head ++ rest ∧ (key, after) = splitKey?.plain head rest := by
  unfold Pair.splitKey? at h
  split at h
  · cases h
  · exact .inl (isQuoted_of_quoted (.inl rfl) h)
  · exact .inl (isQuoted_of_quoted (.inr rfl) h)
  · rename_i c rest
    split at h
    · rename_i hfollows
      obtain ⟨hblank, hcolon⟩ := followsDash_iff.1 hfollows
      exact .inr ⟨['-', c], rest, .dash hblank hcolon, rfl, (Option.some.inj h).symm⟩
    · cases h
  · rename_i c rest _ _ _
    split at h
    · rename_i hstarts
      obtain ⟨hblank, hother⟩ := startsPlain_iff.1 hstarts
      exact .inr ⟨[c], rest, .character hblank hother, rfl, (Option.some.inj h).symm⟩
    · cases h

theorem spells_of_splitKey? (h : Pair.splitKey? s = some (key, after))
    (hcolon : Text.trimStart after = ':' :: tail)
    (htail : ∀ c, tail.head? = some c → isBlank c = true) :
    ∃ blanks, Spells s key blanks tail := by
  rcases splitKey?_cases h with ⟨hquoted, rfl⟩ | ⟨head, rest, hhead, rfl, hplain⟩
  · obtain ⟨blanks, hblanks, hafter⟩ := Text.exists_blanks_trimStart after
    refine ⟨blanks, ⟨?_, .inl hquoted, hblanks, htail⟩⟩
    rw [List.append_assoc, ← hcolon, ← hafter]
  · obtain ⟨rfl, rfl⟩ := Prod.mk.inj hplain
    -- What follows a plain key is a colon, a hash sign or nothing.
    have hstop : rest.dropWhile continuesPlain = ':' :: tail := by
      cases hdrop : rest.dropWhile continuesPlain with
      | nil =>
        rw [hdrop] at hcolon
        cases hcolon
      | cons c others =>
        have hc : continuesPlain c = false := by
          have hhead := List.head?_dropWhile_not continuesPlain rest
          rw [hdrop] at hhead
          simpa using hhead
        have hblank : isBlank c = false :=
          Bool.eq_false_iff.2 fun hblank =>
            Bool.false_ne_true (hc.symm.trans (continuesPlain_of_isBlank hblank))
        rw [← hcolon, hdrop, Text.trimStart_of_not_blank hblank]
    obtain ⟨blanks, hblanks, htaken⟩ := Text.exists_blanks_trimEnd (rest.takeWhile continuesPlain)
    refine ⟨blanks, ⟨?_, .inr ?_, hblanks, htail⟩⟩
    · rw [hhead.trimEnd_append, List.append_assoc, List.append_assoc, ← List.append_assoc _ blanks,
        ← htaken, ← hstop, List.takeWhile_append_dropWhile]
    · have hlast := Text.trimEnd_eq_self_iff.1
        (Text.trimEnd_trimEnd (head ++ rest.takeWhile continuesPlain))
      rw [hhead.trimEnd_append] at hlast ⊢
      refine .mk hhead (fun c hc => continuesPlain_iff.1 (List.mem_takeWhile_imp (l := rest) ?_))
        hlast
      rw [htaken]
      exact List.mem_append_left blanks hc

theorem Spells.unique (h : Spells s key blanks tail) (h' : Spells s key' blanks' tail') :
    key = key' ∧ blanks = blanks' ∧ tail = tail' := by
  obtain ⟨after, hkey, hcolon⟩ := h.splitKey?
  obtain ⟨after', hkey', hcolon'⟩ := h'.splitKey?
  rw [hkey] at hkey'
  cases hkey'
  rw [hcolon] at hcolon'
  cases hcolon'
  have htext := h.text.symm.trans h'.text
  rw [List.append_assoc, List.append_assoc, List.append_cancel_left_eq,
    List.append_cancel_right_eq] at htext
  exact ⟨rfl, htext, rfl⟩

theorem Spells.takeWhile_colon (h : Spells s key blanks tail) (hplain : IsPlain key) :
    s.takeWhile (· != ':') = key ++ blanks := by
  obtain ⟨rfl, -, hblanks, -⟩ := h
  have hnot : ∀ c ∈ key ++ blanks, (c != ':') = true := by
    intro c hc
    rw [bne_iff_ne]
    rcases List.mem_append.1 hc with hc | hc
    · obtain ⟨hhead, hrest, -⟩ := hplain
      rcases List.mem_append.1 hc with hc | hc
      · cases hhead with
        | character _ hother =>
          rw [List.mem_singleton.1 hc]
          rintro rfl
          exact hother (by decide)
        | dash _ hcolon =>
          rcases List.mem_cons.1 hc with rfl | hc
          · decide
          · rwa [List.mem_singleton.1 hc]
      · exact (hrest c hc).1
    · rintro rfl
      exact absurd (hblanks ':' hc) (by decide)
  rw [List.takeWhile_append_of_pos hnot, List.takeWhile_cons_of_neg (by simp), List.append_nil]

/-! ### Values -/

theorem value?_cons (c : Char) (rest : Text) :
    value? (c :: rest) =
      if !isBlank c || (Text.trimStart (c :: rest)).contains '\n' then none
      else some (valueIn (c :: rest)) := by
  have htrim : Text.trim (Text.trimStart (c :: rest)) = Text.trim (c :: rest) := by
    rw [Text.trim, Text.trim, Text.trimStart, Text.trimStart, List.dropWhile_idempotent]
  simp only [value?, htrim, valueIn]
  generalize Text.trim (c :: rest) = trimmed
  congr 1
  split
  · rfl
  · rfl
  · rename_i hne hhash
    rw [if_neg]
    rintro (rfl | hhead)
    · exact hne rfl
    · obtain ⟨others, rfl⟩ := List.head?_eq_some_iff.1 hhead
      exact hhash others rfl

theorem value?_eq_some_iff {value : Option Text} :
    value? tail = some value ↔
      (∀ c, tail.head? = some c → isBlank c = true) ∧ '\n' ∉ Text.trimStart tail ∧
        value = valueIn tail := by
  cases tail with
  | nil =>
    have hvalue : valueIn [] = none := rfl
    have htrim : '\n' ∉ Text.trimStart [] := List.not_mem_nil
    simp [value?, hvalue, htrim, eq_comm (a := value)]
  | cons c rest =>
    rw [value?_cons]
    split
    · rename_i hbad
      simp only [Bool.or_eq_true, Bool.not_eq_true', List.contains_eq_mem, decide_eq_true_eq]
        at hbad
      constructor
      · intro h
        cases h
      · rintro ⟨hblank, hfeed, -⟩
        rcases hbad with hbad | hbad
        · rw [hblank c rfl] at hbad
          cases hbad
        · exact absurd hbad hfeed
    · rename_i hgood
      simp only [Bool.or_eq_true, Bool.not_eq_true', List.contains_eq_mem, decide_eq_true_eq,
        not_or, Bool.not_eq_false] at hgood
      rw [Option.some.injEq, eq_comm]
      refine ⟨fun h => ⟨fun d hd => ?_, hgood.2, h⟩, fun h => h.2.2⟩
      cases hd
      exact hgood.1

/-- An entry is read exactly where the text spells one, and no line feed stands in its value. -/
theorem ofText?_eq_some_iff :
    ofText? s = some pair ↔
      ∃ blanks tail, Spells s pair.key blanks tail ∧ '\n' ∉ Text.trimStart tail ∧
        pair.value = valueIn tail := by
  obtain ⟨key, value⟩ := pair
  simp only [ofText?, Option.bind_eq_bind, Option.bind_eq_some_iff]
  constructor
  · rintro ⟨⟨key', after⟩, hsplit, h⟩
    dsimp only at h
    split at h
    · rename_i tail hcolon
      obtain ⟨value', hvalue, hpair⟩ := Option.bind_eq_some_iff.1 h
      cases hpair
      obtain ⟨htail, hfeed, rfl⟩ := value?_eq_some_iff.1 hvalue
      obtain ⟨blanks, hspells⟩ := spells_of_splitKey? hsplit hcolon htail
      exact ⟨blanks, tail, hspells, hfeed, rfl⟩
    · cases h
  · rintro ⟨blanks, tail, hspells, hfeed, rfl⟩
    obtain ⟨after, hsplit, hcolon⟩ := hspells.splitKey?
    have hvalue := value?_eq_some_iff.2 ⟨hspells.tail, hfeed, rfl⟩
    refine ⟨(key, after), hsplit, ?_⟩
    simp [hcolon, hvalue]

end Pair

end Reindent
