import Reindent.Pass.Run

/-!
# Reindent.Document

Repairs whole documents.

* `Engine.repair`   — passes over a document until a pass leaves it as it is.
* `Engine.transform` — the same, giving the document back where that fails.

A document that still changes after `maxPasses` passes is given up on.
-/

namespace Reindent

/-- How many passes may change a document. -/
def maxPasses : Nat := 4

structure Engine where
  registry : Registry := .standard
  /-- Add a `---` marker to a document that lacks one. -/
  ensureDocumentStart : Bool := false
  deriving DecidableEq, Repr

/-- A repaired document. -/
structure Repair where
  text : Text
  changed : Bool
  stats : Stats
  events : List Event
  deriving DecidableEq, Repr

structure Transformed where
  text : Text
  changed : Bool
  events : List Event
  deriving DecidableEq, Repr

/-- A document between two passes. -/
structure Draft where
  lines : List OutLine
  /-- The document that the lines make up. -/
  body : Text
  stats : Stats
  events : List Event
  deriving DecidableEq, Repr

namespace Draft

/-- The result of a pass over `text`. -/
def ofPass (pass : Pass) (text : Text) : Draft :=
  { lines := pass.lines, body := pass.text text, stats := pass.stats, events := pass.events }

/-- The number of lines that a pass changed or moved. -/
def touched (pass : Pass) : Nat :=
  pass.stats.reindented + pass.stats.relocated

/-- The draft after another pass, the one with the given number, that changed it. -/
def advance (draft : Draft) (number : Nat) (pass : Pass) : Draft :=
  { lines := pass.lines
    body := pass.text draft.body
    stats :=
      { draft.stats with
        reindented := draft.stats.reindented + pass.stats.reindented
        relocated := draft.stats.relocated + pass.stats.relocated }
    events := draft.events ++ pass.events ++ [.settling number (touched pass)] }

/-- Passes over the draft until one leaves it as it is, allowing `remaining` passes that do
not. -/
def settle (registry : Registry) (remaining : Nat) (draft : Draft) :
    Except Pass.Failure Draft :=
  match Pass.run registry draft.body with
  | .error failure => .error { failure with events := draft.events ++ failure.events }
  | .ok pass =>
    if pass.text draft.body = draft.body then
      .ok { draft with events := draft.events ++ pass.events }
    else
      match remaining with
      | 0 => .error ⟨.unstable maxPasses, draft.events ++ pass.events⟩
      | remaining + 1 => settle registry remaining (draft.advance (maxPasses - remaining) pass)

/-! ### The document start marker -/

def marker : OutLine :=
  { body := ['-', '-', '-'], ending := .missing, number := 0, trivia := false }

/-- A line with content: neither blank nor a comment. -/
def hasContent (line : OutLine) : Bool :=
  match Text.trim line.body with
  | [] => false
  | '#' :: _ => false
  | _ => true

/-- The document has content, and that starts neither with a marker nor with a directive. -/
def lacksMarker (lines : List OutLine) : Bool :=
  (lines.find? hasContent).any fun line =>
    let first := Text.trim line.body
    !(marker.body.isPrefixOf first) && !(['%'].isPrefixOf first)

/-- Puts the marker before a draft that lacks one. -/
def addMarker (draft : Draft) : Draft :=
  if lacksMarker draft.lines then
    { draft with
      lines := marker :: draft.lines
      stats := { draft.stats with documentStart := true } }
  else draft

end Draft

namespace Engine

/-- Checks the draft's number of lines against that of the document `text`, and gives the draft
the terminators of `text`. -/
def collect (text : Text) (inputLines : Nat) (draft : Draft) : Except Pass.Failure Repair :=
  let expected := inputLines + if draft.stats.documentStart then 1 else 0
  if draft.lines.length ≠ expected then
    .error ⟨.lineCountMismatch expected draft.lines.length, draft.events⟩
  else
    let result := joinLines text (draft.lines.map OutLine.toRawLine)
    .ok { text := result, changed := result != text, stats := draft.stats, events := draft.events }

/-- Repairs the document `text`. -/
def repair (engine : Engine) (text : Text) : Except Pass.Failure Repair :=
  match Pass.run engine.registry text with
  | .error failure => .error failure
  | .ok pass =>
    match (Draft.ofPass pass text).settle engine.registry (maxPasses - 1) with
    | .error failure => .error failure
    | .ok draft =>
      collect text pass.inputLines (if engine.ensureDocumentStart then draft.addMarker else draft)

/-- Repairs the document `text`, or gives it back if that fails. -/
def transform (engine : Engine) (text : Text) : Transformed :=
  match engine.repair text with
  | .ok repair => { text := repair.text, changed := repair.changed, events := repair.events }
  | .error failure =>
    { text, changed := false, events := failure.events ++ [.givenUp failure.fault] }

end Engine

end Reindent
