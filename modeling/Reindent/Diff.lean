import Reindent.Text.Lines

/-!
# Reindent.Diff

The difference of two versions of a document, as hunks of lines.

* `Hunk`     — consecutive lines of the old version and what replaces them.
* `Diff.hunks` — versions of one length are compared line by line; otherwise the common lines at
  both ends are left out and the rest is one hunk.
* `lineDiff` — the hunks as text.
-/

namespace Reindent

structure Hunk where
  /-- The number, from 1, of the first line that is replaced. -/
  line : Nat
  removed : List Text
  added : List Text
  deriving DecidableEq, Repr

namespace Hunk

/-- A line of the diff: what it says about the line, and the line. -/
def mark (sign : Char) (line : Text) : Text :=
  sign :: line ++ ['\n']

def render (hunk : Hunk) : Text :=
  s!"@@ line {hunk.line} @@\n".toList ++ hunk.removed.flatMap (mark '-') ++
    hunk.added.flatMap (mark '+')

/-- Puts the replacement of one line before the hunks of the lines below it. -/
def extend (line : Nat) (old new : Text) : List Hunk → List Hunk
  | [] => [⟨line, [old], [new]⟩]
  | hunk :: rest =>
    if hunk.line = line + 1 then ⟨line, old :: hunk.removed, new :: hunk.added⟩ :: rest
    else ⟨line, [old], [new]⟩ :: hunk :: rest

end Hunk

namespace Diff

/-- The hunks of two versions compared position by position, `line` being the number of the
first. -/
def positional : Nat → List Text → List Text → List Hunk
  | line, a :: old, b :: new =>
    let below := positional (line + 1) old new
    if a = b then below else Hunk.extend line a b below
  | _, _, _ => []

/-- How many lines the two versions share at the top. -/
def sharedTop : List Text → List Text → Nat
  | a :: old, b :: new => if a = b then sharedTop old new + 1 else 0
  | _, _ => 0

/-- The one hunk between the shared lines at the top and the shared lines at the bottom. -/
def middle (old new : List Text) : Hunk :=
  let top := sharedTop old new
  let old := old.drop top
  let new := new.drop top
  let bottom := sharedTop old.reverse new.reverse
  ⟨top + 1, old.take (old.length - bottom), new.take (new.length - bottom)⟩

def hunks (old new : List Text) : List Hunk :=
  if old.length = new.length then positional 1 old new else [middle old new]

end Diff

/-- The difference of two documents, as text. -/
def lineDiff (old new : Text) : Text :=
  (Diff.hunks old.lines new.lines).flatMap Hunk.render

end Reindent
