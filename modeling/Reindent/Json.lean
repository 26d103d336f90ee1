/-!
# Reindent.Json

JSON values as the report needs them, and their indented text.

* `Json.pretty` — one field or element per line, two columns deeper than what holds it. Fields
  keep their order.
-/

namespace Reindent

inductive Json where
  | null
  | bool (value : Bool)
  | nat (value : Nat)
  | str (value : String)
  | arr (elements : List Json)
  | obj (fields : List (String × Json))

namespace Json

def hexDigit (n : Nat) : Char :=
  (Nat.toDigits 16 n).headD '0'

/-- A character inside a string. Quotes, backslashes and control characters are escaped. -/
def escape (c : Char) : List Char :=
  match c with
  | '"' => ['\\', '"']
  | '\\' => ['\\', '\\']
  | '\n' => ['\\', 'n']
  | '\r' => ['\\', 'r']
  | '\t' => ['\\', 't']
  | '\x08' => ['\\', 'b']
  | '\x0c' => ['\\', 'f']
  | c =>
    if c.toNat < 0x20 then ['\\', 'u', '0', '0', hexDigit (c.toNat / 16), hexDigit (c.toNat % 16)]
    else [c]

def quote (s : String) : String :=
  String.ofList ('"' :: s.toList.flatMap escape ++ ['"'])

def newline (depth : Nat) : String :=
  String.ofList ('\n' :: List.replicate (2 * depth) ' ')

/-- The parts on lines of their own, inside brackets; without parts, the brackets alone. -/
def enclose (opening closing : String) (depth : Nat) (parts : List String) : String :=
  if parts.isEmpty then opening ++ closing
  else
    opening ++ newline (depth + 1) ++ String.intercalate ("," ++ newline (depth + 1)) parts ++
      newline depth ++ closing

mutual

/-- The text of a value that stands `depth` levels deep. -/
def prettyAt (depth : Nat) : Json → String
  | null => "null"
  | bool true => "true"
  | bool false => "false"
  | nat n => toString n
  | str s => quote s
  | arr elements => enclose "[" "]" depth (prettyElements (depth + 1) elements)
  | obj fields => enclose "\x7b" "\x7d" depth (prettyFields (depth + 1) fields)

def prettyElements (depth : Nat) : List Json → List String
  | [] => []
  | value :: rest => prettyAt depth value :: prettyElements depth rest

def prettyFields (depth : Nat) : List (String × Json) → List String
  | [] => []
  | (name, value) :: rest =>
    (quote name ++ ": " ++ prettyAt depth value) :: prettyFields depth rest

end

def pretty (value : Json) : String :=
  prettyAt 0 value

end Json

end Reindent
