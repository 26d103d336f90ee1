import Reindent.Text.Basic

/-!
# Reindent.Text.Lines

Documents as lines with their terminators.

* `Text.splitLines` — the lines of a document, each a body and an `Ending`.
* `Text.lines`      — the bodies alone, as a reader counts them.
* `joinLines`       — a document from lines, with the terminators a given document calls for.
-/

namespace Reindent

/-- What stands between a line's body and the next line. -/
inductive Ending where
  /-- The document ended without a terminator. -/
  | missing
  | lf
  | crlf
  deriving DecidableEq, Repr

namespace Ending

def text : Ending → Text
  | missing => []
  | lf => ['\n']
  | crlf => ['\r', '\n']

end Ending

/-- A line of a document: its text without the terminator, and the terminator. -/
structure RawLine where
  body : Text
  ending : Ending
  deriving DecidableEq, Repr

namespace RawLine

/-- A line that was ended by a line feed. One carriage return before the feed belongs to the
terminator; any further ones belong to the body. -/
def terminated (line : Text) : RawLine :=
  match line.getLast? with
  | some '\r' => ⟨line.dropLast, .crlf⟩
  | _ => ⟨line, .lf⟩

def text (line : RawLine) : Text :=
  line.body ++ line.ending.text

end RawLine

namespace Text

/-- Splits `t` at its line feeds; `current` holds the characters of the open line, newest
first. -/
def splitLinesFrom (current : Text) : Text → List RawLine
  | [] => if current.isEmpty then [] else [⟨current.reverse, .missing⟩]
  | '\n' :: rest => RawLine.terminated current.reverse :: splitLinesFrom [] rest
  | c :: rest => splitLinesFrom (c :: current) rest

/-- The lines of a document. Only the last one can lack a terminator, and a document that ends
with a terminator has no empty line after it. -/
def splitLines (t : Text) : List RawLine :=
  splitLinesFrom [] t

/-- The bodies of the lines of `t`. -/
def lines (t : Text) : List Text :=
  (splitLines t).map RawLine.body

/-- The terminator of the last line of `t`. -/
def finalEnding (t : Text) : Ending :=
  match t.reverse with
  | '\n' :: '\r' :: _ => .crlf
  | '\n' :: _ => .lf
  | _ => .missing

/-- Some line of `t` ends with a carriage return and a line feed. -/
def containsCrlf : Text → Bool
  | '\r' :: '\n' :: _ => true
  | _ :: rest => containsCrlf rest
  | [] => false

/-- The terminator for a line of `t` that has none of its own. -/
def commonEnding (t : Text) : Ending :=
  if containsCrlf t then .crlf else .lf

end Text

/-- Joins lines, with `common` after a line that lacks a terminator and `final` after the last
line whatever it had. -/
def joinLinesWith (common final : Ending) : List RawLine → Text
  | [] => []
  | [line] => line.body ++ final.text
  | line :: rest =>
    line.body ++ (if line.ending = .missing then common else line.ending).text ++
      joinLinesWith common final rest

/-- Joins lines into a document with the conventions of `model`: a line that lost its place as
the last one gets `model`'s common terminator, and the last line ends as `model` does. -/
def joinLines (model : Text) (lines : List RawLine) : Text :=
  joinLinesWith model.commonEnding model.finalEnding lines

end Reindent
