import Reindent.Text.Lines

/-!
# Reindent.Relocation

Attribute lines lifted out of a frame that cannot own them. A list of them waits in input
order for its place in the output.
-/

namespace Reindent

structure Relocation where
  key : Text
  /-- The line after its indentation. -/
  content : Text
  ending : Ending
  /-- The column it will stand at: that of the key which opened the frame it was found in. -/
  indent : Nat
  /-- The key of that frame. -/
  origin : Text
  /-- The number of the line in the input, from 1. -/
  lineNumber : Nat
  deriving DecidableEq, Repr

namespace Relocation

/-- The line as it will be written. -/
def render (r : Relocation) : Text :=
  Text.spaces r.indent ++ r.content

/-- One of the waiting lines sets `key`. -/
def sets (key : Text) (waiting : List Relocation) : Bool :=
  waiting.any (·.key == key)

end Relocation

end Reindent
