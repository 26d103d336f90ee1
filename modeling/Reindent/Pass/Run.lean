import Reindent.Pass.Step

/-!
# Reindent.Pass.Run

A pass over a whole document.

* `Pass.steps` — the lines from the top, one after the other.
* `Pass.finish` — ends what is open at the end of the document.
* `Pass.runLines`, `Pass.run` — the pass.
-/

namespace Reindent

/-- What a pass makes of a document. -/
structure Pass where
  lines : List OutLine
  /-- The number of lines of the document. -/
  inputLines : Nat
  stats : Stats
  events : List Event
  deriving DecidableEq, Repr

namespace Pass

/-- Steps through the lines. -/
def steps (registry : Registry) : State → List InputLine → Except Failure State
  | state, [] => .ok state
  | state, input :: rest =>
    match state.step registry input rest with
    | .ok state => steps registry state rest
    | .error failure => .error failure

/-- Ends every frame, then the last item of the document, then the document. -/
def unwind (state : State) : State :=
  let state := state.closeAtEnd state.stack.length
  let entry := state.root.entry
  let state := { state with root := { state.root with entry := none } }.flushEntry entry
  { state with orphans := [] }.flush state.orphans

/-- Unwinds, and checks that nothing is left. -/
def finish (state : State) : Except Failure State :=
  let state := unwind state
  match state.stack with
  | frame :: _ => state.fail (.unclosedFrames state.stack.length frame.key)
  | [] =>
    if state.buffered ≠ state.emitted then
      state.fail (.unflushedRelocations state.buffered state.emitted)
    else .ok state

/-- Checks the number of lines of the output against that of the input. -/
def collect (count : Nat) (state : State) : Except Failure Pass :=
  if state.written.length ≠ count then state.fail (.lineCountMismatch count state.written.length)
  else
    .ok
      { lines := state.written.reverse, inputLines := count, stats := state.stats,
        events := state.events.reverse }

/-- A pass over a document that is given as lines. -/
def runLines (registry : Registry) (lines : List RawLine) : Except Failure Pass :=
  match steps registry {} (InputLine.ofLines 1 lines) with
  | .error failure => .error failure
  | .ok state =>
    match finish state with
    | .error failure => .error failure
    | .ok state => collect lines.length state

/-- A pass over the document `text`. -/
def run (registry : Registry) (text : Text) : Except Failure Pass :=
  runLines registry text.splitLines

/-- The document that a pass over `text` results in. -/
def text (pass : Pass) (text : Text) : Text :=
  joinLines text (pass.lines.map OutLine.toRawLine)

end Pass

end Reindent
