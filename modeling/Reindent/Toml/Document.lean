import Reindent.Toml.Item

/-!
# Reindent.Toml.Document

Reads TOML documents.

* `value?`    — reads a value.
* `Statement` — a line of a document: a header, or a key and its value.
* `Draft`     — the tables after some statements.
* `document?` — the table that a document stands for; `none` if it is malformed.
-/

namespace Reindent

namespace Toml

/-! ### Values -/

/-- How deep arrays and inline tables can be nested. -/
def maxDepth : Nat := 80

def isWordChar (c : Char) : Bool :=
  c.isAlphanum || c == '_' || c == '-' || c == '+' || c == '.' || c == ':'

/-- What a word without quotes stands for. -/
def wordValue? (word : Text) : Option Value :=
  if word == "true".toList then some (.boolean true)
  else if word == "false".toList then some (.boolean false)
  else
    match integer? word, float? word with
    | some n, _ => some (.integer n)
    | none, some overflows => some (.float overflows)
    | none, none => if isMoment word then some .moment else none

/-- Reads a word. A date and a time can have a blank between them. -/
def word? (text : Text) : Option (Value × Text) := do
  let word := text.takeWhile isWordChar
  let rest := text.dropWhile isWordChar
  match rest with
  | ' ' :: more =>
    let time := more.takeWhile isWordChar
    if date? word == some [] && time.head?.any Text.isDigit then
      return (← wordValue? (word ++ ' ' :: time), more.dropWhile isWordChar)
    else return (← wordValue? word, rest)
  | _ => return (← wordValue? word, rest)

mutual

/-- Reads a value, `depth` more levels of nesting being allowed. -/
def valueFrom? : Nat → Nat → Text → Option (Value × Text)
  | 0, _, _ => none
  | fuel + 1, depth, text =>
    match text with
    | '"' :: _ => do
      let (t, rest) ← quoted? '"' text
      return (.text t, rest)
    | '\'' :: _ => do
      let (t, rest) ← quoted? '\'' text
      return (.text t, rest)
    | '[' :: rest => do
      guard (depth > 0)
      let (elements, rest) ← elements? fuel (depth - 1) rest
      return (.array elements, rest)
    | '\x7b' :: rest => do
      guard (depth > 0)
      let (fields, rest) ← inlineFields? fuel (depth - 1) [] rest
      return (.table (Item.finishFields fields), rest)
    | _ => word? text

/-- Reads the rest of an array. -/
def elements? : Nat → Nat → Text → Option (List Value × Text)
  | 0, _, _ => none
  | fuel + 1, depth, text => do
    match ← skipTrivia text with
    | ']' :: rest => return ([], rest)
    | text =>
      let (value, rest) ← valueFrom? fuel depth text
      match ← skipTrivia rest with
      | ',' :: rest =>
        let (values, rest) ← elements? fuel depth rest
        return (value :: values, rest)
      | ']' :: rest => return ([value], rest)
      | _ => none

/-- Reads the rest of an inline table that has `fields` already. -/
def inlineFields? : Nat → Nat → Fields → Text → Option (Fields × Text)
  | 0, _, _, _ => none
  | fuel + 1, depth, fields, text => do
    match ← skipTrivia text with
    | '\x7d' :: rest => return (fields, rest)
    | text =>
      let (path, rest) ← dottedKey? text
      let '=' :: rest := rest | none
      let (value, rest) ← valueFrom? fuel depth (skipBlanks rest)
      let fields ← Item.put? path value fields
      match ← skipTrivia rest with
      | ',' :: rest => inlineFields? fuel depth fields rest
      | '\x7d' :: rest => return (fields, rest)
      | _ => none

end

def value? (text : Text) : Option (Value × Text) :=
  valueFrom? (2 * text.length + 2) maxDepth text

/-! ### Statements -/

inductive Statement where
  | header (path : List Text) (inArray : Bool)
  | assignment (path : List Text) (value : Value)

namespace Statement

/-- Reads a header behind its first bracket. -/
def header? (text : Text) : Option (Statement × Text) :=
  match text with
  | '[' :: text => do
    let (path, rest) ← dottedKey? text
    let rest ← [']', ']'].isPrefixOf? rest
    return (header path true, rest)
  | text => do
    let (path, rest) ← dottedKey? text
    let rest ← [']'].isPrefixOf? rest
    return (header path false, rest)

/-- Reads a statement. -/
def ofText? (text : Text) : Option (Statement × Text) :=
  match text with
  | '[' :: rest => header? rest
  | text => do
    let (path, rest) ← dottedKey? text
    let '=' :: rest := rest | none
    let (value, rest) ← value? (skipBlanks rest)
    return (assignment path value, rest)

end Statement

/-- Reads the statements of a document, each to the end of its line. -/
def statementsFrom? : Nat → Text → Option (List Statement)
  | 0, _ => none
  | fuel + 1, text => do
    match ← skipTrivia text with
    | [] => return []
    | text =>
      let (statement, rest) ← Statement.ofText? text
      return statement :: (← statementsFrom? fuel (← lineEnd? rest))

/-! ### Documents -/

/-- The tables of a document up to some statement. -/
structure Draft where
  root : Fields := []
  /-- The header above; the table under it is not in `root` yet. -/
  header : Option (List Text × Bool) := none
  current : Fields := []

namespace Draft

/-- Puts the table under the header above into its place. -/
def close? (draft : Draft) : Option Fields :=
  match draft.header with
  | none => some draft.current
  | some (path, inArray) => do
    let key ← path.getLast?
    let close (_ : Bool) (fields : Fields) : Option Fields :=
      if inArray then
        match fields.lookup key with
        | none => some (fields ++ [(key, .tables [draft.current])])
        | some (.tables elements) =>
          some (Item.replace key (.tables (elements ++ [draft.current])) fields)
        | some _ => none
      else some (fields ++ [(key, .table false false draft.current)])
    Item.alter? false close path.dropLast false draft.root

/-- What the table of a new header holds already, and the fields around it without that. A table
can only be there if it was made on the way to another one, and not by a key with dots. -/
def takeOut? (key : Text) (fields : Fields) : Option (Fields × Fields) :=
  match fields.lookup key with
  | none => some ([], fields)
  | some (.table true false inner) => some (inner, fields.filter fun field => field.1 != key)
  | some _ => none

/-- The fields at the end of `path`. -/
def fieldsAt? : List Text → Fields → Option Fields
  | [], fields => some fields
  | key :: path, fields =>
    match fields.lookup key with
    | none => some []
    | some (.value _) => none
    | some (.table _ _ inner) => fieldsAt? path inner
    | some (.tables elements) => elements.getLast?.bind (fieldsAt? path)

/-- Starts the table under a header. -/
def open? (draft : Draft) (path : List Text) (inArray : Bool) : Option Draft := do
  let root ← draft.close?
  if inArray then return { root, header := some (path, inArray), current := [] }
  else
    let key ← path.getLast?
    let (current, _) ← takeOut? key (← fieldsAt? path.dropLast root)
    let root ← Item.alter? false (fun _ fields => (takeOut? key fields).map Prod.snd)
      path.dropLast false root
    return { root, header := some (path, inArray), current }

def add? (draft : Draft) : Statement → Option Draft
  | .header path inArray => draft.open? path inArray
  | .assignment path value => do
    return { draft with current := ← Item.put? path value draft.current }

end Draft

/-- A mark that can stand at the start of a document. -/
def byteOrderMark : Char := '\ufeff'

/-- The table that a document stands for. -/
def document? (text : Text) : Option Value := do
  let text := ([byteOrderMark].isPrefixOf? text).getD text
  let statements ← statementsFrom? (text.length + 1) text
  let draft ← statements.foldlM Draft.add? {}
  return .table (Item.finishFields (← draft.close?))

end Toml

end Reindent
