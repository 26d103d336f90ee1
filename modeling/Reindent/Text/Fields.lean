import Reindent.Text.Basic

/-!
# Reindent.Text.Fields

* `Text.fields` — a text cut at a separator.
* `Text.order`  — the order of texts.
-/

namespace Reindent

namespace Text

/-- The parts of a text between the separators; one more than there are separators. -/
abbrev fields (separator : Char) (t : Text) : List Text :=
  t.splitOn separator

/-- The order of texts: character by character, by code point. -/
def order (s t : Text) : Ordering :=
  compare s t

end Text

end Reindent
