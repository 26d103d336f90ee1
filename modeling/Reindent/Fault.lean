import Reindent.Text.Basic

/-!
# Reindent.Fault

Broken expectations of the engine. Each one means that the document is left as it was.
-/

namespace Reindent

inductive Fault where
  /-- A frame would stand at or left of the frame around it. -/
  | frameOrder (key : Text) (base : Nat) (parent : Text) (parentBase : Nat)
  /-- Frames are open after the last line. -/
  | unclosedFrames (depth : Nat) (key : Text)
  /-- Not every line that was lifted out has been written. -/
  | unflushedRelocations (buffered emitted : Nat)
  /-- Lines were lost or added. -/
  | lineCountMismatch (input output : Nat)
  /-- Each pass still changes the result of the pass before. -/
  | unstable (passes : Nat)
  deriving DecidableEq, Repr

namespace Fault

def message : Fault → String
  | frameOrder key base parent parentBase =>
    s!"frame `{String.ofList key}` at indent {base} does not nest inside " ++
      s!"`{String.ofList parent}` at indent {parentBase}"
  | unclosedFrames depth key =>
    s!"{depth} frame(s) still open at end of document (innermost `{String.ofList key}`)"
  | unflushedRelocations buffered emitted =>
    s!"{buffered} attribute(s) buffered for relocation but {emitted} emitted"
  | lineCountMismatch input output => s!"output has {output} line(s), expected {input}"
  | unstable passes => s!"output still changing after {passes} passes"

end Fault

end Reindent
