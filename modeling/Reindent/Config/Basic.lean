import Reindent.Registry

/-!
# Reindent.Config.Basic

What a configuration file can say.

* `FileConfig`        — the settings of a file, each of them optional.
* `Reader`            — how the values of a file format are read.
* `FileConfig.ofValue?` — the settings that a value of some format holds.

Fields with other names are left unread.
-/

namespace Reindent

structure FixSettings where
  write : Option Bool := none
  diff : Option Bool := none
  check : Option Bool := none
  jobs : Option Nat := none
  documentStart : Option Bool := none
  deriving DecidableEq, Repr

structure FileConfig where
  output : Option Text := none
  fix : Option FixSettings := none
  patterns : Option (List Text) := none
  exclude : Option (List Text) := none
  keys : Option RegistryExtension := none
  deriving DecidableEq, Repr

/-- How the values of a file format are read. -/
structure Reader (α : Type) where
  /-- Whether the value stands for no value. -/
  isAbsent? : α → Option Bool
  text? : α → Option Text
  flag? : α → Option Bool
  /-- A machine word. -/
  word? : α → Option Nat
  list? : α → Option (List α)
  /-- The fields of a record that has fields with the given names. Where a format can list the
  fields of a record without their names, the flag says that all of them have to be there. -/
  fields? : List Text → Bool → α → Option (List (Text × α))
  /-- The value can be left unread. -/
  isReadable : α → Bool

namespace Reader

variable {α β : Type}

/-- The field with the given name, if there is one. A field that is there twice is an error. -/
def field? (fields : List (Text × α)) (name : Text) : Option (Option α) :=
  match fields.filter fun field => field.1 == name with
  | [] => some none
  | [field] => some (some field.2)
  | _ => none

/-- Reads a field that can be absent. -/
def optional? (reader : Reader α) (read : α → Option β) (fields : List (Text × α))
    (name : String) : Option (Option β) := do
  match ← field? fields name.toList with
  | none => return none
  | some value => if ← reader.isAbsent? value then return none else return some (← read value)

/-- Reads a list of texts. -/
def texts? (reader : Reader α) (value : α) : Option (List Text) := do
  (← reader.list? value).mapM reader.text?

/-- Reads a field that is an empty list by default. -/
def textsField? (reader : Reader α) (fields : List (Text × α)) (name : String) :
    Option (List Text) := do
  match ← field? fields name.toList with
  | none => return []
  | some value => reader.texts? value

/-- The fields of a record whose known fields are `names`. -/
def record? (reader : Reader α) (names : List String) (complete : Bool) (value : α) :
    Option (List (Text × α)) := do
  let names := names.map String.toList
  let fields ← reader.fields? names complete value
  guard (fields.all fun field => names.contains field.1 || reader.isReadable field.2)
  return fields

def fixSettings? (reader : Reader α) (value : α) : Option FixSettings := do
  let fields ← reader.record? ["write", "diff", "check", "jobs", "document_start"] true value
  return {
    write := ← reader.optional? reader.flag? fields "write"
    diff := ← reader.optional? reader.flag? fields "diff"
    check := ← reader.optional? reader.flag? fields "check"
    jobs := ← reader.optional? reader.word? fields "jobs"
    documentStart := ← reader.optional? reader.flag? fields "document_start" }

def extension? (reader : Reader α) (value : α) : Option RegistryExtension := do
  let fields ←
    reader.record? ["sections", "blocks", "lists", "modules", "attributes", "descriptive"] false
      value
  return {
    sections := ← reader.textsField? fields "sections"
    blocks := ← reader.textsField? fields "blocks"
    lists := ← reader.textsField? fields "lists"
    modules := ← reader.textsField? fields "modules"
    attributes := ← reader.textsField? fields "attributes"
    descriptive := ← reader.textsField? fields "descriptive" }

end Reader

/-- The settings that a value holds. -/
def FileConfig.ofValue? {α : Type} (reader : Reader α) (value : α) : Option FileConfig := do
  let fields ← reader.record? ["output", "fix", "patterns", "exclude", "keys"] true value
  return {
    output := ← reader.optional? reader.text? fields "output"
    fix := ← reader.optional? reader.fixSettings? fields "fix"
    patterns := ← reader.optional? reader.texts? fields "patterns"
    exclude := ← reader.optional? reader.texts? fields "exclude"
    keys := ← reader.optional? reader.extension? fields "keys" }

end Reindent
