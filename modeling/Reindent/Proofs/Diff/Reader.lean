import Mathlib.Data.List.Basic
import Reindent.Diff
import Reindent.Proofs.Text.Fields
import Reindent.Proofs.Text.Number

/-!
# Reindent.Proofs.Diff.Reader

A difference is read back.

* `Diff.read?`       — the hunks in a text.
* `read?_flatMap_render` — hunks that are written are read back, whatever their lines start with.
* `render_injective` — so no text stands for two differences.

A text is read from its last line up: lines wait for the header above them.
-/

namespace Reindent
namespace Hunk

/-- What stands before the number in the line above a hunk. -/
def headerStart : Text := ['@', '@', ' ', 'l', 'i', 'n', 'e', ' ']

/-- What stands behind it. -/
def headerEnd : Text := [' ', '@', '@']

/-- The line above a hunk. -/
def header (line : Nat) : Text :=
  headerStart ++ Nat.toDigits 10 line ++ headerEnd

/-- The lines of a hunk. -/
def lines (hunk : Hunk) : List Text :=
  header hunk.line :: (hunk.removed.map ('-' :: ·) ++ hunk.added.map ('+' :: ·))

/-- The number in the line above a hunk. -/
def number? (line : Text) : Option Nat := do
  let rest ← headerStart.isPrefixOf? line
  guard (rest.dropWhile Text.isDigit = headerEnd)
  Text.numeral? 10 (rest.takeWhile Text.isDigit)

/-- The lines that a hunk removes and adds are lines. -/
def IsLined (hunk : Hunk) : Prop :=
  (∀ line ∈ hunk.removed, '\n' ∉ line) ∧ ∀ line ∈ hunk.added, '\n' ∉ line

theorem render_eq (hunk : Hunk) : hunk.render = hunk.lines.flatMap (· ++ ['\n']) := by
  have hheader : s!"@@ line {hunk.line} @@\n".toList = header hunk.line ++ ['\n'] := by
    simp only [String.toList_append, toString, Nat.toList_repr, header, headerStart, headerEnd]
    simp
  have hmark : ∀ (sign : Char) (texts : List Text),
      texts.flatMap (mark sign) = (texts.map (sign :: ·)).flatMap (· ++ ['\n']) := by
    intro sign texts
    rw [List.flatMap_map]
    rfl
  rw [render, hheader, lines, hmark, hmark]
  simp

theorem number?_header (n : Nat) : number? (header n) = some n := by
  have hstrip : ∀ rest : Text, headerStart.isPrefixOf? (headerStart ++ rest) = some rest :=
    fun rest => rfl
  have htake : (Nat.toDigits 10 n ++ headerEnd).takeWhile Text.isDigit = Nat.toDigits 10 n := by
    rw [List.takeWhile_append_of_pos fun c => Text.isDigit_of_mem_toDigits]
    exact List.append_nil _
  have hdrop : (Nat.toDigits 10 n ++ headerEnd).dropWhile Text.isDigit = headerEnd := by
    rw [List.dropWhile_append_of_pos fun c => Text.isDigit_of_mem_toDigits]
    rfl
  rw [number?, header, List.append_assoc, hstrip, Option.bind_eq_bind, Option.bind_some, hdrop,
    htake, Text.numeral?_toDigits]
  rfl

theorem header_eq_cons (n : Nat) : ∃ rest, header n = '@' :: rest :=
  ⟨_, rfl⟩

theorem feed_not_mem_header (n : Nat) : '\n' ∉ header n := by
  have hdigits : '\n' ∉ Nat.toDigits 10 n := by
    intro h
    exact absurd (Text.isDigit_of_mem_toDigits h) (by decide)
  simp [header, headerStart, headerEnd, hdigits]

theorem IsLined.feed_not_mem {hunk : Hunk} (h : hunk.IsLined) :
    ∀ line ∈ hunk.lines, '\n' ∉ line := by
  intro line hline
  rw [lines, List.mem_cons, List.mem_append, List.mem_map, List.mem_map] at hline
  rcases hline with rfl | ⟨text, htext, rfl⟩ | ⟨text, htext, rfl⟩
  · exact feed_not_mem_header hunk.line
  · simpa using h.1 text htext
  · simpa using h.2 text htext

end Hunk

namespace Diff

/-- What has been read below a line: hunks, and lines that wait for their header. -/
structure Below where
  removed : List Text := []
  added : List Text := []
  hunks : List Hunk := []

/-- Reads the line above. -/
def Below.read? (line : Text) (below : Below) : Option Below :=
  match line with
  | '+' :: text =>
    if below.removed.isEmpty then some { below with added := text :: below.added } else none
  | '-' :: text => some { below with removed := text :: below.removed }
  | line => (Hunk.number? line).map fun number =>
      { hunks := ⟨number, below.removed, below.added⟩ :: below.hunks }

/-- The hunks in a text, which is empty or ends with a line feed. -/
def read? (text : Text) : Option (List Hunk) := do
  let fields := Text.fields '\n' text
  guard (fields.getLast? = some [])
  let below ← fields.dropLast.foldrM Below.read? {}
  guard (below.removed.isEmpty && below.added.isEmpty)
  return below.hunks

theorem foldrM_added (texts : List Text) (below : Below) (h : below.removed = []) :
    (texts.map ('+' :: ·)).foldrM Below.read? below =
      some { below with added := texts ++ below.added } := by
  induction texts with
  | nil => rfl
  | cons text texts ih => simp [ih, Below.read?, h]

theorem foldrM_removed (texts : List Text) (below : Below) :
    (texts.map ('-' :: ·)).foldrM Below.read? below =
      some { below with removed := texts ++ below.removed } := by
  induction texts with
  | nil => rfl
  | cons text texts ih => simp [ih, Below.read?]

/-- The lines of a hunk are read as this hunk, above those that have been read. -/
theorem foldrM_lines (hunk : Hunk) (hunks : List Hunk) :
    hunk.lines.foldrM Below.read? { hunks } = some { hunks := hunk :: hunks } := by
  obtain ⟨rest, hheader⟩ := Hunk.header_eq_cons hunk.line
  have hread : ∀ below : Below, Below.read? (Hunk.header hunk.line) below =
      some { hunks := ⟨hunk.line, below.removed, below.added⟩ :: below.hunks } := by
    intro below
    rw [← Option.map_some (a := hunk.line)
      (f := fun n => ({ hunks := ⟨n, below.removed, below.added⟩ :: below.hunks } : Below)),
      ← Hunk.number?_header hunk.line, hheader]
    rfl
  rw [Hunk.lines, List.foldrM_cons, List.foldrM_append, foldrM_added _ _ rfl]
  simp [foldrM_removed, hread]

theorem foldrM_flatMap_lines (hunks : List Hunk) :
    (hunks.flatMap Hunk.lines).foldrM Below.read? {} = some { hunks } := by
  induction hunks with
  | nil => rfl
  | cons hunk hunks ih =>
    rw [List.flatMap_cons, List.foldrM_append, ih]
    exact foldrM_lines hunk hunks

/-- Hunks that are written are read back. -/
theorem read?_flatMap_render {hunks : List Hunk} (h : ∀ hunk ∈ hunks, hunk.IsLined) :
    read? (hunks.flatMap Hunk.render) = some hunks := by
  have htext : hunks.flatMap Hunk.render =
      (hunks.flatMap Hunk.lines).flatMap (· ++ ['\n']) := by
    rw [List.flatMap_assoc]
    exact congrArg (hunks.flatMap ·) (funext Hunk.render_eq)
  have hfeed : ∀ line ∈ hunks.flatMap Hunk.lines, '\n' ∉ line := by
    intro line hline
    obtain ⟨hunk, hhunk, hline⟩ := List.mem_flatMap.1 hline
    exact (h hunk hhunk).feed_not_mem line hline
  have hlast : ((hunks.flatMap Hunk.lines) ++ [[]]).getLast? = some [] := List.getLast?_concat
  rw [read?, htext, Text.fields_flatMap_lines hfeed, hlast, List.dropLast_concat,
    foldrM_flatMap_lines]
  rfl

/-- No text stands for two differences. -/
theorem render_injective {hunks others : List Hunk} (h : ∀ hunk ∈ hunks, hunk.IsLined)
    (h' : ∀ hunk ∈ others, hunk.IsLined)
    (hsame : others.flatMap Hunk.render = hunks.flatMap Hunk.render) : others = hunks := by
  have hread := read?_flatMap_render h'
  rw [hsame, read?_flatMap_render h] at hread
  exact (Option.some.inj hread).symm

end Diff
end Reindent
