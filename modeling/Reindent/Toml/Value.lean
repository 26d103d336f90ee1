import Reindent.Toml.Lexical
import Reindent.Config.Basic

/-!
# Reindent.Toml.Value

Values of TOML documents, and what settings read from them.

* `Toml.Value`  — a value.
* `Toml.reader` — how settings read one.
-/

namespace Reindent

namespace Toml

inductive Value where
  | text (text : Text)
  | integer (n : Int)
  /-- A number with a fraction or an exponent; the flag tells that it is too large. -/
  | float (overflows : Bool)
  | boolean (b : Bool)
  /-- A date, a time or both. -/
  | moment
  | array (elements : List Value)
  | table (fields : List (Text × Value))

namespace Value

/-- The number fits into 128 bits, with a sign or without. -/
def isRepresentable (n : Int) : Bool :=
  -Int.pow 2 127 ≤ n && n < Int.pow 2 128

mutual

/-- Every number in the value fits the type for it. -/
def isReadable : Value → Bool
  | integer n => isRepresentable n
  | float overflows => !overflows
  | array elements => areReadable elements
  | table fields => haveReadable fields
  | text _ | boolean _ | moment => true

def areReadable : List Value → Bool
  | [] => true
  | value :: rest => isReadable value && areReadable rest

def haveReadable : List (Text × Value) → Bool
  | [] => true
  | (_, value) :: rest => isReadable value && haveReadable rest

end

def text? : Value → Option Text
  | text t => some t
  | _ => none

def flag? : Value → Option Bool
  | boolean b => some b
  | _ => none

def word? : Value → Option Nat
  | integer n => if n < 0 then none else Text.asWord? n.toNat
  | _ => none

def list? : Value → Option (List Value)
  | array elements => some elements
  | _ => none

/-- The fields of a table. An array lists fields without their names, and a date is a record of
fields that no settings know. -/
def fields? (names : List Text) (complete : Bool) : Value → Option (List (Text × Value))
  | table fields => some fields
  | array elements =>
    if complete && elements.length < names.length then none else some (names.zip elements)
  | moment => some []
  | _ => none

end Value

/-- How settings read TOML. -/
def reader : Reader Value where
  isAbsent? _ := some false
  text? := Value.text?
  flag? := Value.flag?
  word? := Value.word?
  list? := Value.list?
  fields? := Value.fields?
  isReadable := Value.isReadable

end Toml

end Reindent
