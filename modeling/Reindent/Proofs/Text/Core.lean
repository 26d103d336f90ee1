import Reindent.Proofs.Text.Lines
import Reindent.Proofs.Line.Reading
import Mathlib.Data.List.DropRight

/-!
# Reindent.Proofs.Text.Core

The part of a line that a pass reads, and the carriage returns after it.

* `Text.core`    — a text without the carriage returns at its end.
* `Text.returns` — how many there are.
* `RawLine.returns` — those of a line, the one that belongs to its terminator included.
* `RawLine.terminator` — these and the line feed.
* `RawLine.eq_of_core` — a line that has been read is its core, its carriage returns and whether it
  is terminated at all.
-/

namespace Reindent
namespace Text

def core (t : Text) : Text :=
  t.rdropWhile (· == '\r')

def returns (t : Text) : Nat :=
  (t.rtakeWhile (· == '\r')).length

@[simp] theorem core_nil : core [] = [] := rfl

@[simp] theorem returns_nil : returns [] = 0 := rfl

@[simp] theorem core_append_return (t : Text) : core (t ++ ['\r']) = core t :=
  List.rdropWhile_concat_pos _ _ _ (by simp)

@[simp] theorem returns_append_return (t : Text) : returns (t ++ ['\r']) = returns t + 1 := by
  rw [returns, List.rtakeWhile_concat_pos _ _ _ (by simp), List.length_append]
  rfl

theorem core_append_of_ne {c : Char} (hc : c ≠ '\r') (t : Text) : core (t ++ [c]) = t ++ [c] :=
  List.rdropWhile_concat_neg _ _ _ (by simpa using hc)

theorem returns_append_of_ne {c : Char} (hc : c ≠ '\r') (t : Text) : returns (t ++ [c]) = 0 := by
  rw [returns, List.rtakeWhile_concat_neg _ _ _ (by simpa using hc)]
  rfl

/-- A text is empty, ends with a carriage return or ends with another character. -/
theorem rec_return {P : Text → Prop} (nil : P []) (append_return : ∀ t, P t → P (t ++ ['\r']))
    (append : ∀ t c, c ≠ '\r' → P (t ++ [c])) (t : Text) : P t := by
  induction t using List.reverseRecOn with
  | nil => exact nil
  | append_singleton t c ih =>
    by_cases hc : c = '\r'
    · rw [hc]
      exact append_return t ih
    · exact append t c hc

theorem core_append_returns (t : Text) : core t ++ List.replicate (returns t) '\r' = t := by
  induction t using rec_return with
  | nil => rfl
  | append_return t ih =>
    rw [core_append_return, returns_append_return, List.replicate_succ', ← List.append_assoc, ih]
  | append t c hc => simp [core_append_of_ne hc, returns_append_of_ne hc]

theorem core_core (t : Text) : core (core t) = core t :=
  List.rdropWhile_idempotent _ _

theorem core_of_not_mem {t : Text} (h : '\r' ∉ t) : core t = t := by
  induction t using rec_return with
  | nil => rfl
  | append_return t _ => simp at h
  | append t c hc => exact core_append_of_ne hc t

theorem returns_eq_zero {t : Text} (h : t.getLast? ≠ some '\r') : returns t = 0 := by
  induction t using rec_return with
  | nil => rfl
  | append_return t _ => simp at h
  | append t c hc => exact returns_append_of_ne hc t

/-! ### Indentation -/

theorem core_spaces_append (n : Nat) (t : Text) : core (spaces n ++ t) = spaces n ++ core t := by
  induction t using rec_return with
  | nil =>
    rw [List.append_nil, core_nil, List.append_nil, core, List.rdropWhile_eq_self_iff]
    intro hne hlast
    have hspace := List.eq_of_mem_replicate (List.getLast_mem hne)
    rw [hspace] at hlast
    exact absurd hlast (by decide)
  | append_return t ih => rw [← List.append_assoc, core_append_return, core_append_return, ih]
  | append t c hc => rw [← List.append_assoc, core_append_of_ne hc, core_append_of_ne hc,
      List.append_assoc]

theorem returns_spaces_append (n : Nat) (t : Text) : returns (spaces n ++ t) = returns t := by
  induction t using rec_return with
  | nil =>
    rw [List.append_nil]
    refine returns_eq_zero ?_
    intro hlast
    have hspace := List.eq_of_mem_replicate (List.mem_of_getLast? hlast)
    exact absurd hspace (by decide)
  | append_return t ih => rw [← List.append_assoc, returns_append_return, returns_append_return, ih]
  | append t c hc => rw [← List.append_assoc, returns_append_of_ne hc, returns_append_of_ne hc]

theorem takeWhile_core {p : Char → Bool} (hp : p '\r' = false) (t : Text) :
    (core t).takeWhile p = t.takeWhile p := by
  induction t using rec_return with
  | nil => rfl
  | append_return t ih =>
    rw [core_append_return, ih, List.takeWhile_append]
    split
    · rename_i hlength
      have hall : t.takeWhile p = t := (List.takeWhile_prefix p).eq_of_length hlength
      simp [hp, hall]
    · rfl
  | append t c hc => rw [core_append_of_ne hc]

@[simp] theorem indent_core (t : Text) : indent (core t) = indent t := by
  rw [indent, takeWhile_core (by decide), ← indent]

theorem drop_indent_core (t : Text) : (core t).drop (indent t) = core (t.drop (indent t)) := by
  have h := core_spaces_append (indent t) (t.drop (indent t))
  rw [spaces_indent_append] at h
  rw [h, List.drop_left' (by simp [spaces])]

theorem returns_drop_indent (t : Text) : returns (t.drop (indent t)) = returns t := by
  rw [← returns_spaces_append (indent t), spaces_indent_append]

/-! ### Blanks -/

theorem trimEnd_core (t : Text) : trimEnd (core t) = trimEnd t := by
  induction t using rec_return with
  | nil => rfl
  | append_return t ih => rw [core_append_return, ih, trimEnd_append_blank isBlank_return]
  | append t c hc => rw [core_append_of_ne hc]

theorem trim_core (t : Text) : trim (core t) = trim t := by
  induction t using rec_return with
  | nil => rfl
  | append_return t ih => rw [core_append_return, ih, trim_append_return]
  | append t c hc => rw [core_append_of_ne hc]

theorem trimStart_append_return (t : Text) :
    trimStart (t ++ ['\r']) = if trimStart t = [] then [] else trimStart t ++ ['\r'] := by
  by_cases h : t.dropWhile isBlank = []
  · rw [trimStart, trimStart, List.dropWhile_append, h]
    simp [isBlank_return]
  · rw [trimStart, trimStart, List.dropWhile_append, if_neg h, if_neg (by simpa using h)]

theorem trimStart_core (t : Text) : trimStart (core t) = core (trimStart t) := by
  induction t using rec_return with
  | nil => rfl
  | append_return t ih =>
    rw [core_append_return, ih, trimStart_append_return]
    split
    · rename_i h
      rw [h]
    · exact (core_append_return _).symm
  | append t c hc =>
    rw [core_append_of_ne hc, trimStart, List.dropWhile_append]
    split
    · by_cases hblank : isBlank c = true
      · simp [hblank]
      · simpa [hblank] using (core_append_of_ne hc []).symm
    · rw [core_append_of_ne hc]

theorem core_cons {c : Char} (hc : c ≠ '\r') (t : Text) : core (c :: t) = c :: core t := by
  induction t using rec_return with
  | nil => exact core_append_of_ne hc []
  | append_return t ih => rw [← List.cons_append, core_append_return, core_append_return, ih]
  | append t d hd => rw [← List.cons_append, core_append_of_ne hd, core_append_of_ne hd,
      List.cons_append]

/-- The text up to the first character that is not blank is part of the core. -/
theorem takeWhile_isBlank_core {t : Text} (h : trimStart t ≠ []) :
    (core t).takeWhile isBlank = t.takeWhile isBlank := by
  induction t using rec_return with
  | nil => exact absurd rfl h
  | append_return t ih =>
    have hne : trimStart t ≠ [] := by
      intro hnil
      rw [trimStart_append_return, if_pos hnil] at h
      exact h rfl
    rw [core_append_return, ih hne, List.takeWhile_append, if_neg]
    intro hlength
    have hall : t.takeWhile isBlank = t := (List.takeWhile_prefix isBlank).eq_of_length hlength
    refine hne ?_
    rw [trimStart, List.dropWhile_eq_nil_iff]
    exact List.takeWhile_eq_self_iff.1 hall
  | append t c hc => rw [core_append_of_ne hc]

theorem width_eq_add_trimStart (t : Text) :
    width t = width (t.takeWhile isBlank) + width (trimStart t) := by
  rw [trimStart, ← width_append, List.takeWhile_append_dropWhile]

end Text

namespace RawLine

/-- The carriage returns at the end of the line, before its line feed. -/
def returns (line : RawLine) : Nat :=
  Text.returns line.body + if line.ending = .crlf then 1 else 0

/-- The line as a pass reads it. -/
def bare (line : RawLine) : RawLine :=
  { body := Text.core line.body, ending := .missing }

/-- What ends the line: its carriage returns and the line feed, if it has one. -/
def terminator (line : RawLine) : Text :=
  List.replicate line.returns '\r' ++ if line.ending = .missing then [] else ['\n']

theorem core_append_terminator (line : RawLine) :
    Text.core line.body ++ line.terminator = line.text := by
  obtain ⟨body, ending⟩ := line
  have hbody := Text.core_append_returns body
  cases ending with
  | missing | lf => simp [terminator, returns, text, Ending.text, ← List.append_assoc, hbody]
  | crlf =>
    have hsplit : List.replicate (Text.returns body + 1) '\r' ++ ['\n'] =
        List.replicate (Text.returns body) '\r' ++ ['\r', '\n'] := by
      rw [List.replicate_succ', List.append_assoc]
      rfl
    simp [terminator, returns, text, Ending.text, hsplit, ← List.append_assoc, hbody]

theorem bare_eq_iff {line line' : RawLine} :
    line.bare = line'.bare ↔ Text.core line.body = Text.core line'.body := by
  simp [bare]

theorem bare_bare (line : RawLine) : line.bare.bare = line.bare := by
  rw [bare_eq_iff]
  exact Text.core_core _

@[simp] theorem core_reread (line : RawLine) :
    Text.core line.reread.body = Text.core line.body := by
  obtain ⟨body, ending⟩ := line
  cases ending with
  | missing | crlf => rfl
  | lf =>
    rcases terminated_cases body with ⟨init, hbody, h⟩ | ⟨_, h⟩
    · rw [reread, h, hbody, Text.core_append_return]
    · rw [reread, h]

@[simp] theorem returns_reread (line : RawLine) : line.reread.returns = line.returns := by
  obtain ⟨body, ending⟩ := line
  cases ending with
  | missing | crlf => rfl
  | lf =>
    rcases terminated_cases body with ⟨init, hbody, h⟩ | ⟨_, h⟩
    · rw [reread, h, hbody, returns, returns, Text.returns_append_return]
      rfl
    · rw [reread, h]

theorem missing_reread (line : RawLine) :
    line.reread.ending = .missing ↔ line.ending = .missing := by
  obtain ⟨body, ending⟩ := line
  cases ending with
  | missing | crlf => rfl
  | lf => rcases terminated_cases body with ⟨_, _, h⟩ | ⟨_, h⟩ <;> simp [reread, h]

/-- A line that has been read and ends with a line feed alone has no carriage return before it. -/
theorem returns_body_of_lf {line : RawLine} (hread : line.reread = line) (h : line.ending = .lf) :
    Text.returns line.body = 0 := by
  obtain ⟨body, ending⟩ := line
  cases h
  rcases terminated_cases body with ⟨init, _, hterminated⟩ | ⟨hlast, _⟩
  · rw [reread, hterminated] at hread
    cases hread
  · exact Text.returns_eq_zero hlast

theorem returns_body {line : RawLine} (hread : line.reread = line) :
    Text.returns line.body =
      if line.ending = .missing then line.returns else line.returns - 1 := by
  cases h : line.ending with
  | missing => simp [returns, h]
  | lf => simp [returns, h, returns_body_of_lf hread h]
  | crlf => simp [returns, h]

theorem ending_of_returns {line : RawLine} (hread : line.reread = line)
    (hmissing : line.ending ≠ .missing) :
    line.ending = if line.returns = 0 then .lf else .crlf := by
  cases h : line.ending with
  | missing => exact absurd h hmissing
  | lf => simp [returns, h, returns_body_of_lf hread h]
  | crlf => simp [returns, h]

theorem eq_of_core {line line' : RawLine} (hread : line.reread = line)
    (hread' : line'.reread = line')
    (hcore : Text.core line.body = Text.core line'.body) (hreturns : line.returns = line'.returns)
    (hmissing : line.ending = .missing ↔ line'.ending = .missing) : line = line' := by
  have hending : line.ending = line'.ending := by
    by_cases h : line.ending = .missing
    · rw [h, hmissing.1 h]
    · rw [ending_of_returns hread h, ending_of_returns hread' (fun h' => h (hmissing.2 h')),
        hreturns]
  have hbody : line.body = line'.body := by
    rw [← Text.core_append_returns line.body, ← Text.core_append_returns line'.body, hcore,
      returns_body hread, returns_body hread', hreturns, hending]
  obtain ⟨body, ending⟩ := line
  obtain ⟨body', ending'⟩ := line'
  cases hending
  cases hbody
  rfl

end RawLine
end Reindent
