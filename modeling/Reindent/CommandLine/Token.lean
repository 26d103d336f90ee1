import Reindent.Text.Basic

/-!
# Reindent.CommandLine.Token

The words of a command line by their form.
-/

namespace Reindent

inductive Token where
  /-- `--`, after which every word is an operand. -/
  | escape
  /-- `--name` or `--name=value`. -/
  | long (name : Text) (value : Option Text)
  /-- `-abc`. -/
  | short (letters : Text)
  | word (text : Text)
  deriving DecidableEq, Repr

namespace Token

/-- The part before the first `=`, and the part after it if there is one. -/
def splitValue (t : Text) : Text × Option Text :=
  match t.dropWhile (· != '=') with
  | [] => (t, none)
  | _ :: value => (t.takeWhile (· != '='), some value)

/-- Reads a word. A single dash is an operand. -/
def ofText (word : Text) : Token :=
  match word with
  | ['-', '-'] => .escape
  | '-' :: '-' :: rest => .long (splitValue rest).1 (splitValue rest).2
  | ['-'] => .word word
  | '-' :: letters => .short letters
  | _ => .word word

end Token

end Reindent
