import Reindent.Proofs.Answers
import Reindent.Glob.Walk

/-!
# Reindent.Proofs.Glob.Literal

Patterns whose characters stand for themselves, but for stars in front.

* `Plain`           — a text without characters that are special in patterns.
* `parse_plain`     — such a text is read as its characters.
* `everywhere`      — the pattern of all names with an ending, at any depth.
* `accepts_ending`  — a star and an ending fit the texts with that ending.
-/

namespace Reindent
namespace Glob

variable {ending text : Text} {tokens : List Token}

/-- No character is special in patterns. -/
def Plain (text : Text) : Prop :=
  ∀ c ∈ text, c ≠ '?' ∧ c ≠ '*' ∧ c ≠ '['

instance (text : Text) : Decidable (Plain text) :=
  List.decidableBAll (fun c => c ≠ '?' ∧ c ≠ '*' ∧ c ≠ '[') text

/-- The tokens of a plain text. -/
def chars (text : Text) : List Token :=
  text.map .char

/-! ### Reading -/

theorem parseFrom_plain {plain : Text} (h : Plain plain) (position : Nat) (before : Option Char)
    (tokens : List Token) (rest : Text) :
    parseFrom 0 position before tokens (plain ++ rest) =
      parseFrom 0 (position + plain.length) (plain.getLast?.or before)
        ((chars plain).reverse ++ tokens) rest := by
  induction plain generalizing position before tokens with
  | nil => rfl
  | cons c plain ih =>
    rw [Plain, List.forall_mem_cons] at h
    obtain ⟨⟨hquestion, hstar, hbracket⟩, hplain⟩ := h
    have hstep : parseFrom 0 position before tokens (c :: (plain ++ rest)) =
        parseFrom 0 (position + 1) (some c) (.char c :: tokens) (plain ++ rest) := by
      rw [parseFrom] <;> assumption
    have hbefore : plain.getLast?.or (some c) = (c :: plain).getLast?.or before := by
      cases plain <;> simp [List.getLast?_cons]
    rw [List.cons_append, hstep, ih hplain, hbefore, List.length_cons, Nat.add_assoc,
      Nat.add_comm 1]
    simp [chars]

theorem parse_plain (h : Plain text) : parse text = .ok (chars text) := by
  have hread := parseFrom_plain h 0 none [] []
  rw [List.append_nil] at hread
  rw [parse, hread, parseFrom]
  simp

theorem ofTokens_chars (text : Text) : Step.ofTokens (chars text) = .literal text := by
  have hliteral : Step.literal? (chars text) = some text := by
    induction text with
    | nil => rfl
    | cons c text ih =>
      rw [Step.literal?, chars, List.map_cons, List.mapM_cons, ← chars, ← Step.literal?, ih]
      rfl
  rw [Step.ofTokens, hliteral]

/-- All names with the ending, at any depth. -/
def everywhere (ending : Text) : Text :=
  '*' :: '*' :: '/' :: '*' :: ending

theorem takeWhile_star (h : Plain ending) : ending.takeWhile (· == '*') = [] := by
  cases ending with
  | nil => rfl
  | cons c ending =>
    have hstar : c ≠ '*' := (h c List.mem_cons_self).2.1
    simp [hstar]

theorem parseFrom_star (h : Plain ending) (position : Nat) (before : Option Char)
    (tokens : List Token) :
    parseFrom 0 position before tokens ('*' :: ending) =
      .ok (tokens.reverse ++ .anySequence :: chars ending) := by
  have hread := parseFrom_plain h (position + 1) (some '*') (.anySequence :: tokens) []
  rw [List.append_nil] at hread
  simp [parseFrom, takeWhile_star h, readStars, hread]

/-- Two stars at the start or behind a slash, and a name with the ending. -/
theorem parseFrom_everywhere (h : Plain ending) (position : Nat) {before : Option Char}
    (hbefore : before.any (· != '/') = false) (tokens : List Token) :
    parseFrom 0 position before tokens (everywhere ending) =
      .ok ((addAnyComponents tokens).reverse ++ .anySequence :: chars ending) := by
  have hstar := parseFrom_star h (position + 3) (some '/') (addAnyComponents tokens)
  have hskip : ∀ tokens,
      parseFrom 2 (position + 1) (some '*') tokens ('*' :: '/' :: '*' :: ending) =
        parseFrom 0 (position + 3) (some '/') tokens ('*' :: ending) := fun _ => rfl
  rw [everywhere, parseFrom]
  simp [readStars, hbefore, hskip, hstar]

theorem parse_star (h : Plain ending) :
    parse ('*' :: ending) = .ok (.anySequence :: chars ending) := by
  rw [parse, parseFrom_star h]
  rfl

theorem ofTokens_star (ending : Text) :
    Step.ofTokens (.anySequence :: chars ending) = .pattern (.anySequence :: chars ending) := by
  have hcomponents : Token.anyComponents ∉ chars ending := by simp [chars]
  have hliteral : Step.literal? (.anySequence :: chars ending) = none := by
    rw [Step.literal?, List.mapM_cons]
    rfl
  simp [Step.ofTokens, hliteral, hcomponents]

/-! ### Matching -/

theorem judge_chars_eq_fits : judge (chars ending) text = .fits ↔ text = ending := by
  induction ending generalizing text with
  | nil => cases text <;> simp [chars, judge]
  | cons c ending ih =>
    cases text with
    | nil => simp [chars, judge]
    | cons d text =>
      rw [chars, List.map_cons, ← chars]
      by_cases hd : d = c <;> simp [judge, fits, hd, ih]

theorem judge_chars_eq_differs (h : ending.length < text.length) :
    judge (chars ending) text = .differs := by
  induction ending generalizing text with
  | nil => cases text <;> simp_all [chars, judge]
  | cons c ending ih =>
    cases text with
    | nil => simp at h
    | cons d text =>
      rw [chars, List.map_cons, ← chars]
      by_cases hd : d = c
      · simp [judge, fits, hd, ih (by simpa using h)]
      · simp [judge, fits, hd]

theorem tryRests_eq_fits {attempt : Text → Verdict} (h : tryRests false attempt text = .fits) :
    ∃ stem rest, text = stem ++ rest ∧ attempt rest = .fits := by
  induction text with
  | nil => exact ⟨[], [], rfl, h⟩
  | cons c text ih =>
    simp only [tryRests, Bool.false_and, Bool.false_eq_true, if_false] at h
    cases hattempt : attempt text with
    | fits => exact ⟨[c], text, rfl, hattempt⟩
    | tooShort => simp [hattempt] at h
    | differs =>
      simp only [hattempt] at h
      obtain ⟨stem, rest, rfl, hrest⟩ := ih h
      exact ⟨c :: stem, rest, rfl, hrest⟩

theorem tryRests_chars {stem : Text} (hstem : stem ≠ []) :
    tryRests false (judge (chars ending)) (stem ++ ending) = .fits := by
  induction stem with
  | nil => exact absurd rfl hstem
  | cons c stem ih =>
    cases stem with
    | nil => simp [tryRests, judge_chars_eq_fits.2 rfl]
    | cons d stem =>
      have hdiffers : judge (chars ending) (d :: stem ++ ending) = .differs :=
        judge_chars_eq_differs (by simp only [List.length_append, List.length_cons]; omega)
      rw [List.cons_append, tryRests, hdiffers]
      simpa using ih nofun

/-- A star and an ending fit the texts with that ending. -/
theorem accepts_ending :
    accepts (.anySequence :: chars ending) text ↔ ∃ stem, text = stem ++ ending := by
  rw [accepts, beq_iff_eq, judge]
  constructor
  · intro h
    cases hjudge : judge (chars ending) text with
    | fits => exact ⟨[], judge_chars_eq_fits.1 hjudge⟩
    | tooShort => simp [hjudge] at h
    | differs =>
      simp only [hjudge] at h
      obtain ⟨stem, rest, rfl, hrest⟩ := tryRests_eq_fits h
      exact ⟨stem, by rw [judge_chars_eq_fits.1 hrest]⟩
  · rintro ⟨stem, rfl⟩
    cases stem with
    | nil => simp [judge_chars_eq_fits.2 rfl]
    | cons c stem =>
      have hdiffers : judge (chars ending) (c :: stem ++ ending) = .differs :=
        judge_chars_eq_differs (by simp only [List.length_append, List.length_cons]; omega)
      simp only [hdiffers]
      exact tryRests_chars nofun

end Glob
end Reindent
