import Reindent.Proofs.Text.Trim

/-!
# Reindent.Proofs.Text.Lines

Splitting a document into lines and joining lines into a document.

* `flatMap_text_splitLines` — the lines with their terminators make up the document.
* `splitLines_flatMap_text` — lines that are written one after the other are read back; one
  carriage return before a line feed goes over to the terminator, and an empty line that lacks a
  terminator is not there.
* `splitLines_joinLines`    — the same for lines that are joined with the conventions of a model.
* `contents_joinLines`      — joining keeps the trimmed lines.
-/

namespace Reindent
namespace RawLine

/-- The line that is read where `line` is written. -/
def reread (line : RawLine) : RawLine :=
  match line.ending with
  | .lf => terminated line.body
  | _ => line

/-- Lines that can stand one after the other: no body has a line feed, and only the last line may
lack a terminator. -/
inductive Closed : List RawLine → Prop where
  | nil : Closed []
  | last {line : RawLine} : '\n' ∉ line.body → Closed [line]
  | cons {line : RawLine} {rest : List RawLine} :
      '\n' ∉ line.body → line.ending ≠ .missing → Closed rest → Closed (line :: rest)

theorem terminated_of_return (body : Text) : terminated (body ++ ['\r']) = ⟨body, .crlf⟩ := by
  simp [terminated]

theorem terminated_of_ne {body : Text} (h : body.getLast? ≠ some '\r') :
    terminated body = ⟨body, .lf⟩ := by
  unfold terminated
  split
  · rename_i hlast
    exact absurd hlast h
  · rfl

/-- A body either ends with a carriage return or is kept as it is by its terminator. -/
theorem terminated_cases (body : Text) :
    (∃ init, body = init ++ ['\r'] ∧ terminated body = ⟨init, .crlf⟩) ∨
      (body.getLast? ≠ some '\r' ∧ terminated body = ⟨body, .lf⟩) := by
  by_cases h : body.getLast? = some '\r'
  · obtain ⟨init, rfl⟩ := List.getLast?_eq_some_iff.1 h
    exact .inl ⟨init, rfl, terminated_of_return init⟩
  · exact .inr ⟨h, terminated_of_ne h⟩

theorem text_terminated (body : Text) : (terminated body).text = body ++ ['\n'] := by
  rcases terminated_cases body with ⟨init, rfl, h⟩ | ⟨_, h⟩ <;> simp [h, text, Ending.text]

theorem reread_terminated (body : Text) : (terminated body).reread = terminated body := by
  rcases terminated_cases body with ⟨init, _, h⟩ | ⟨_, h⟩
  · rw [h]; rfl
  · rw [h, reread, h]

theorem trim_body_reread (line : RawLine) : Text.trim line.reread.body = Text.trim line.body := by
  obtain ⟨body, ending⟩ := line
  cases ending with
  | missing | crlf => rfl
  | lf =>
    rcases terminated_cases body with ⟨init, hbody, h⟩ | ⟨_, h⟩
    · rw [reread, h, hbody, Text.trim_append_return]
    · rw [reread, h]

theorem body_eq_nil_of_text_eq_nil {line : RawLine} (h : line.text = []) : line.body = [] :=
  (List.append_eq_nil_iff.1 h).1

end RawLine

open RawLine

namespace Text

theorem splitLinesFrom_of_not_mem {body : Text} (h : '\n' ∉ body) (current : Text) :
    splitLinesFrom current body =
      if (current.reverse ++ body).isEmpty then [] else [⟨current.reverse ++ body, .missing⟩] := by
  induction body generalizing current with
  | nil => simp [splitLinesFrom]
  | cons c body ih =>
    have hc : c ≠ '\n' := fun e => h (e ▸ List.mem_cons_self)
    have hbody : '\n' ∉ body := fun m => h (List.mem_cons_of_mem _ m)
    simp [splitLinesFrom, ih hbody]

theorem splitLinesFrom_append_feed {body : Text} (h : '\n' ∉ body) (current rest : Text) :
    splitLinesFrom current (body ++ '\n' :: rest) =
      terminated (current.reverse ++ body) :: splitLines rest := by
  induction body generalizing current with
  | nil => simp [splitLinesFrom, splitLines]
  | cons c body ih =>
    have hc : c ≠ '\n' := fun e => h (e ▸ List.mem_cons_self)
    have hbody : '\n' ∉ body := fun m => h (List.mem_cons_of_mem _ m)
    simp [splitLinesFrom, ih hbody]

theorem splitLinesFrom_append (t rest current : Text) :
    splitLinesFrom current (t ++ '\n' :: rest) =
      splitLinesFrom current (t ++ ['\n']) ++ splitLines rest := by
  induction t generalizing current with
  | nil => simp [splitLinesFrom, splitLines]
  | cons c t ih =>
    by_cases hfeed : c = '\n'
    · simp [splitLinesFrom, hfeed, ih]
    · simp [splitLinesFrom, ih]

/-- The lines of two documents, one below the other. -/
theorem splitLines_append {t : Text} (hfeed : t.getLast? = some '\n') (rest : Text) :
    splitLines (t ++ rest) = splitLines t ++ splitLines rest := by
  obtain ⟨init, rfl⟩ := List.getLast?_eq_some_iff.1 hfeed
  rw [List.append_assoc]
  exact splitLinesFrom_append init rest []

theorem splitLines_text_append {line : RawLine} (hbody : '\n' ∉ line.body)
    (hending : line.ending ≠ .missing) (rest : Text) :
    splitLines (line.text ++ rest) = line.reread :: splitLines rest := by
  obtain ⟨body, ending⟩ := line
  cases ending with
  | missing => exact absurd rfl hending
  | lf =>
    have h := splitLinesFrom_append_feed hbody [] rest
    simpa [RawLine.text, Ending.text, splitLines, reread] using h
  | crlf =>
    have hreturn : '\n' ∉ body ++ ['\r'] := by
      simpa using hbody
    have h := splitLinesFrom_append_feed hreturn [] rest
    rw [List.reverse_nil, List.nil_append, terminated_of_return] at h
    simpa [RawLine.text, Ending.text, splitLines, reread] using h

theorem splitLines_flatMap_text {lines : List RawLine} (h : Closed lines) :
    splitLines (lines.flatMap RawLine.text) =
      (lines.filter fun line => !line.text.isEmpty).map reread := by
  induction h with
  | nil => rfl
  | @last line hbody =>
    by_cases hending : line.ending = .missing
    · obtain ⟨body, ending⟩ := line
      subst hending
      have h := splitLinesFrom_of_not_mem hbody []
      cases body <;> simpa [RawLine.text, Ending.text, splitLines, reread] using h
    · have hne : line.text ≠ [] := by
        cases he : line.ending <;> simp_all [RawLine.text, Ending.text]
      have h := splitLines_text_append hbody hending []
      simpa [hne, splitLines, splitLinesFrom] using h
  | @cons line rest hbody hending _ ih =>
    have hne : line.text ≠ [] := by
      cases he : line.ending <;> simp_all [RawLine.text, Ending.text]
    rw [List.flatMap_cons, splitLines_text_append hbody hending, ih]
    simp [hne]

/-- What holds of the lines read while the characters `current` of the open line wait. -/
theorem splitLinesFrom_spec (t : Text) {current : Text} (h : '\n' ∉ current) :
    (splitLinesFrom current t).flatMap RawLine.text = current.reverse ++ t ∧
      Closed (splitLinesFrom current t) ∧
      ∀ line ∈ splitLinesFrom current t, line.reread = line ∧ line.text ≠ [] := by
  induction t generalizing current with
  | nil =>
    cases current with
    | nil => simpa [splitLinesFrom] using Closed.nil
    | cons c current =>
      have hline : '\n' ∉ (c :: current).reverse := fun m => h (List.mem_reverse.1 m)
      refine ⟨by simp [splitLinesFrom, RawLine.text, Ending.text], ?_, ?_⟩
      · simpa [splitLinesFrom] using @Closed.last ⟨(c :: current).reverse, .missing⟩ hline
      · simp [splitLinesFrom, reread, RawLine.text]
  | cons c t ih =>
    by_cases hc : c = '\n'
    · subst hc
      obtain ⟨htext, hclosed, hread⟩ := @ih [] (by simp)
      have hsplit : splitLinesFrom current ('\n' :: t) =
          terminated current.reverse :: splitLinesFrom [] t := by
        simp [splitLinesFrom]
      have hbody : '\n' ∉ (terminated current.reverse).body := by
        rcases terminated_cases current.reverse with ⟨init, hinit, heq⟩ | ⟨_, heq⟩
        · have hmem : '\n' ∉ init ++ ['\r'] := by rw [← hinit]; simpa using h
          rw [heq]
          exact fun m => hmem (List.mem_append_left _ m)
        · rw [heq]; simpa using h
      have hending : (terminated current.reverse).ending ≠ .missing := by
        rcases terminated_cases current.reverse with ⟨_, _, heq⟩ | ⟨_, heq⟩ <;> simp [heq]
      rw [hsplit]
      refine ⟨by simp [htext, text_terminated], .cons hbody hending hclosed, ?_⟩
      intro line hline
      rcases List.mem_cons.1 hline with rfl | hline
      · exact ⟨reread_terminated _, by simp [text_terminated]⟩
      · exact hread line hline
    · have hcurrent : '\n' ∉ c :: current := by
        simpa [Ne.symm hc] using h
      have hsplit : splitLinesFrom current (c :: t) = splitLinesFrom (c :: current) t := by
        simp [splitLinesFrom]
      rw [hsplit]
      simpa using ih hcurrent

theorem flatMap_text_splitLines (t : Text) : (splitLines t).flatMap RawLine.text = t := by
  simpa [splitLines] using (@splitLinesFrom_spec t [] (by simp)).1

theorem closed_splitLines (t : Text) : Closed (splitLines t) :=
  (@splitLinesFrom_spec t [] (by simp)).2.1

theorem reread_of_mem_splitLines {t : Text} {line : RawLine} (h : line ∈ splitLines t) :
    line.reread = line :=
  ((@splitLinesFrom_spec t [] (by simp)).2.2 line h).1

theorem text_ne_nil_of_mem_splitLines {t : Text} {line : RawLine} (h : line ∈ splitLines t) :
    line.text ≠ [] :=
  ((@splitLinesFrom_spec t [] (by simp)).2.2 line h).2

end Text

namespace RawLine

theorem Closed.not_mem_body {lines : List RawLine} (h : Closed lines) :
    ∀ line ∈ lines, '\n' ∉ line.body := by
  induction h with
  | nil => simp
  | last hbody => simpa using hbody
  | cons hbody _ _ ih => simpa using ⟨hbody, ih⟩

/-- The lines with the terminators that joining gives them. -/
def close (common final : Ending) : List RawLine → List RawLine
  | [] => []
  | [line] => [{ line with ending := final }]
  | line :: next :: rest =>
    { line with ending := if line.ending = .missing then common else line.ending } ::
      close common final (next :: rest)

theorem joinLinesWith_eq_flatMap (common final : Ending) (lines : List RawLine) :
    joinLinesWith common final lines = (close common final lines).flatMap text := by
  induction lines with
  | nil => rfl
  | cons line rest ih =>
    cases rest with
    | nil => simp [joinLinesWith, close, text]
    | cons next rest =>
      rw [joinLinesWith, ih, close, List.flatMap_cons, text]
      simp

theorem map_body_close (common final : Ending) (lines : List RawLine) :
    (close common final lines).map body = lines.map body := by
  induction lines with
  | nil => rfl
  | cons line rest ih =>
    cases rest with
    | nil => rfl
    | cons next rest => simp [close, ih]

theorem closed_close {common : Ending} (hcommon : common ≠ .missing) (final : Ending)
    {lines : List RawLine} (h : ∀ line ∈ lines, '\n' ∉ line.body) :
    Closed (close common final lines) := by
  induction lines with
  | nil => exact .nil
  | cons line rest ih =>
    have hline : '\n' ∉ line.body := h line List.mem_cons_self
    have hrest : ∀ line ∈ rest, '\n' ∉ line.body := fun l hl => h l (List.mem_cons_of_mem _ hl)
    cases rest with
    | nil => exact .last hline
    | cons next rest =>
      refine .cons hline ?_ (ih hrest)
      by_cases he : line.ending = .missing <;> simp [he, hcommon]

end RawLine

namespace Text

theorem commonEnding_ne_missing (t : Text) : t.commonEnding ≠ .missing := by
  unfold commonEnding
  split <;> decide

theorem splitLines_joinLines (model : Text) {lines : List RawLine}
    (h : ∀ line ∈ lines, '\n' ∉ line.body) :
    splitLines (joinLines model lines) =
      ((RawLine.close model.commonEnding model.finalEnding lines).filter
        fun line => !line.text.isEmpty).map reread := by
  rw [joinLines, joinLinesWith_eq_flatMap,
    splitLines_flatMap_text (closed_close model.commonEnding_ne_missing _ h)]

/-- Only an empty line is lost when lines are read back, and reading changes no line but for a
carriage return. -/
theorem filter_trim_reread (lines : List RawLine) :
    ((((lines.filter fun line => !line.text.isEmpty).map reread).map RawLine.body).map trim).filter
        (fun line => !line.isEmpty) =
      ((lines.map RawLine.body).map trim).filter fun line => !line.isEmpty := by
  induction lines with
  | nil => rfl
  | cons line rest ih =>
    by_cases hline : line.text = []
    · have hbody : trim line.body = [] := by
        rw [body_eq_nil_of_text_eq_nil hline]; rfl
      simpa [hline, hbody] using ih
    · have hkept : (!line.text.isEmpty) = true := by simpa using hline
      simp only [List.filter_cons, List.map_cons, hkept, if_true, trim_body_reread, ih]

theorem contents_joinLines (model : Text) {lines : List RawLine}
    (h : ∀ line ∈ lines, '\n' ∉ line.body) :
    (joinLines model lines).contents =
      ((lines.map RawLine.body).map trim).filter fun line => !line.isEmpty := by
  rw [contents, Text.lines, splitLines_joinLines model h, filter_trim_reread, map_body_close]

end Text
end Reindent
