import Reindent.Text.Basic

/-!
# Reindent.Line.BlockScalar

Headers of block scalars: `|`, `>-`, `|2+ # note`.

* `isBlockHeader` — the value is such a header, so the deeper lines below it are its text.
-/

namespace Reindent

namespace BlockScalar

def isChomping (c : Char) : Bool :=
  c == '+' || c == '-'

def isDepth (c : Char) : Bool :=
  '1' ≤ c && c ≤ '9'

/-- At most one chomping indicator and one depth, in either order. -/
def areIndicators : Text → Bool
  | [] => true
  | [c] => isChomping c || isDepth c
  | [c, d] => (isChomping c && isDepth d) || (isDepth c && isChomping d)
  | _ => false

/-- Nothing, or a comment on the same line. -/
def isCommentTail : Text → Bool
  | [] => true
  | '#' :: rest => !rest.contains '\n'
  | _ => false

end BlockScalar

open BlockScalar in
/-- `value` is the header of a block scalar. -/
def isBlockHeader (value : Text) : Bool :=
  match Text.trim value with
  | c :: rest =>
    let isIndicator := fun c => isChomping c || isDepth c
    (c == '|' || c == '>') && areIndicators (rest.takeWhile isIndicator) &&
      isCommentTail (Text.trimStart (rest.dropWhile isIndicator))
  | [] => false

end Reindent
