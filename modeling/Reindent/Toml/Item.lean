import Reindent.Toml.Value

/-!
# Reindent.Toml.Item

Tables while a document is read.

* `Item`        — what a key holds so far.
* `Item.alter?` — changes the fields at the end of a path, making the tables on the way.
* `Item.put?`   — sets a key.

A table that was made on the way to another one can be extended; a table that was spelled out
once, an inline table and a plain value cannot.
-/

namespace Reindent

namespace Toml

inductive Item where
  | value (value : Value)
  /-- A table. The flags tell that it was only made on the way to another one, and that it was
  made by a key with dots. -/
  | table (implied dotted : Bool) (fields : List (Text × Item))
  /-- The tables of an array, each spelled out. -/
  | tables (elements : List (List (Text × Item)))

abbrev Fields := List (Text × Item)

namespace Item

/-- Replaces the value of `key`, which is there. -/
def replace (key : Text) (item : Item) (fields : Fields) : Fields :=
  fields.map fun field => if field.1 == key then (key, item) else field

/-- Changes the fields at the end of `path` by `change`, which is also told whether the table
there was made by a key with dots. `dotted` tells that the path is that of such a key. -/
def alter? (dotted : Bool) (change : Bool → Fields → Option Fields) :
    List Text → Bool → Fields → Option Fields
  | [], within, fields => change within fields
  | key :: path, _, fields =>
    match fields.lookup key with
    | none => do
      let inner ← alter? dotted change path dotted []
      return fields ++ [(key, .table true dotted inner)]
    | some (.value _) => none
    | some (.table implied within inner) =>
      if dotted && !implied then none
      else do
        let inner ← alter? dotted change path within inner
        return replace key (.table implied within inner) fields
    | some (.tables elements) =>
      match elements.getLast? with
      | none => none
      | some last => do
        let last ← alter? dotted change path false last
        return replace key (.tables (elements.dropLast ++ [last])) fields

/-- Sets a key that is not there yet. A key with dots and a plain one cannot both set keys of one
table. -/
def put? (path : List Text) (value : Value) (fields : Fields) : Option Fields :=
  match path.getLast? with
  | none => none
  | some key =>
    let dotted := path.length > 1
    alter? dotted (fun within fields =>
      if within != dotted || (fields.lookup key).isSome then none
      else some (fields ++ [(key, .value value)])) path.dropLast false fields

mutual

/-- The value that an item has become. -/
def finish : Item → Value
  | value v => v
  | table _ _ fields => .table (finishFields fields)
  | tables elements => .array (finishTables elements)

def finishFields : List (Text × Item) → List (Text × Value)
  | [] => []
  | (key, item) :: rest => (key, finish item) :: finishFields rest

def finishTables : List (List (Text × Item)) → List Value
  | [] => []
  | fields :: rest => .table (finishFields fields) :: finishTables rest

end

end Item

end Toml

end Reindent
