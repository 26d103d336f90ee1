import Reindent.Text.Basic

/-!
# Reindent.Line.Pair

The mapping entry that a piece of text introduces: `key:`, `key: value`, `"quoted key": value`.

* `Pair.ofText?` — reads the entry, if there is one.

A key is quoted, or it is plain: it starts with a character that can start a plain key, holds
neither `:` nor `#` after that, and ends at the first colon. After the colon comes nothing, or a
blank and then the value.
-/

namespace Reindent

/-- A key with the value on its own line, if there is one. A quoted key keeps its quotes. -/
structure Pair where
  key : Text
  value : Option Text
  deriving DecidableEq, Repr

namespace Pair

/-- Characters that start something other than a plain key. -/
def indicators : Text :=
  ['#', '\'', '"', '[', ']', '{', '}', '&', '*', '!', '|', '>', '%', '@', '\x60', ',', '?', ':',
    '-']

def startsPlain (c : Char) : Bool :=
  !Text.isBlank c && !indicators.contains c

/-- A dash starts a plain key if what follows it is neither a blank nor a colon. -/
def followsDash (c : Char) : Bool :=
  !Text.isBlank c && c != ':'

def continuesPlain (c : Char) : Bool :=
  c != ':' && c != '#'

/-- The key at the start of `s`, and the text from the blanks or the colon after it. -/
def splitKey? : Text → Option (Text × Text)
  | [] => none
  | '"' :: rest => quoted '"' rest
  | '\'' :: rest => quoted '\'' rest
  | '-' :: c :: rest => if followsDash c then some (plain ['-', c] rest) else none
  | c :: rest => if startsPlain c then some (plain [c] rest) else none
where
  quoted (q : Char) (rest : Text) : Option (Text × Text) :=
    match rest.dropWhile (· != q) with
    | [] => none
    | _ :: after => some (q :: rest.takeWhile (· != q) ++ [q], after)
  plain (head rest : Text) : Text × Text :=
    (Text.trimEnd (head ++ rest.takeWhile continuesPlain), rest.dropWhile continuesPlain)

/-- The value in the text after the colon; `none` if the colon does not end a key there. A
comment is no value. -/
def value? (tail : Text) : Option (Option Text) :=
  match tail with
  | [] => some none
  | c :: _ =>
    let body := Text.trimStart tail
    if !Text.isBlank c || body.contains '\n' then none
    else
      match Text.trim body with
      | [] => some none
      | '#' :: _ => some none
      | value => some (some value)

/-- The mapping entry that `s` introduces. -/
def ofText? (s : Text) : Option Pair := do
  let (key, after) ← splitKey? s
  let ':' :: tail := Text.trimStart after | none
  let value ← value? tail
  return { key, value }

end Pair

end Reindent
