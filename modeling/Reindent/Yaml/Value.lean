import Reindent.Yaml.Node
import Reindent.Config.Basic

/-!
# Reindent.Yaml.Value

What settings read from the nodes of a YAML document.

* `Node.resolve` — the node that an alias stands for.
* `Yaml.reader`  — how settings read a node.
-/

namespace Reindent

namespace Yaml

def nullTag : Text :=
  "tag:yaml.org,2002:null".toList

def boolTag : Text :=
  "tag:yaml.org,2002:bool".toList

def intTag : Text :=
  "tag:yaml.org,2002:int".toList

def nullWords : List Text :=
  ["null".toList, "Null".toList, "NULL".toList, "~".toList]

/-- The truth value that a word stands for. -/
def flag? (text : Text) : Option Bool :=
  if ["true".toList, "True".toList, "TRUE".toList].contains text then some true
  else if ["false".toList, "False".toList, "FALSE".toList].contains text then some false
  else none

/-- The bases that a number can name. -/
def bases : List (Text × Nat) :=
  [("0x".toList, 16), ("0o".toList, 8), ("0b".toList, 2)]

/-- A number of digits after a zero is a text. -/
def isPadded (text : Text) : Bool :=
  text.length > 1 && text.head? == some '0' && text.all Text.isDigit

/-- The machine word that a word stands for. One plus sign can stand in front of it. -/
def word? (text : Text) : Option Nat := do
  let digits := (['+'].isPrefixOf? text).getD text
  let based := bases.filterMap fun (mark, base) =>
    (mark.isPrefixOf? digits).map fun digits => (base, digits)
  match based with
  | (base, digits) :: _ => Text.asWord? (← Text.numeral? base digits)
  | [] =>
    guard (!isPadded digits)
    Text.asWord? (← Text.numeral? 10 digits)

namespace Node

/-- The node that an alias stands for; the node itself if it is no alias. Where nodes share the
number of their anchor, the alias stands for the one that starts last. -/
def resolve (root : Node) : Node → Node
  | reference anchor => (root.anchored.reverse.lookup anchor).getD empty
  | node => node

/-- The scalar can be read as more than a text. -/
def isTyped (expected : Text) (style : Style) (tag : Option Text) : Bool :=
  style == .plain || (style == .literal && tag == some expected)

/-- An empty scalar stands for an empty collection. -/
def isLeftOut : Node → Bool
  | scalar _ text style _ => text.isEmpty && style == .plain
  | _ => false

def isAbsent? : Node → Option Bool
  | scalar _ text style tag =>
    if style != .plain then some false
    else
      match tag with
      | none => some (text.isEmpty || nullWords.contains text)
      | some tag =>
        if tag == nullTag then if nullWords.contains text then some true else none
        else some false
  | _ => some false

def text? : Node → Option Text
  | scalar _ text _ _ => some text
  | _ => none

def flag? : Node → Option Bool
  | scalar _ text style tag => if isTyped boolTag style tag then Yaml.flag? text else none
  | _ => none

def word? : Node → Option Nat
  | scalar _ text style tag => if isTyped intTag style tag then Yaml.word? text else none
  | _ => none

def list? : Node → Option (List Node)
  | sequence _ entries => some entries
  | node => if node.isLeftOut then some [] else none

/-- The fields of a mapping whose keys are texts. -/
def fields? (resolve : Node → Node) : Node → Option (List (Text × Node))
  | mapping _ fields => fields.mapM fun (key, value) => do return (← (resolve key).text?, value)
  | node => if node.isLeftOut then some [] else none

end Node

/-- How settings read the nodes of a document. -/
def reader (root : Node) : Reader Node where
  isAbsent? node := (root.resolve node).isAbsent?
  text? node := (root.resolve node).text?
  flag? node := (root.resolve node).flag?
  word? node := (root.resolve node).word?
  list? node := (root.resolve node).list?
  fields? _ _ node := (root.resolve node).fields? root.resolve
  isReadable _ := true

end Yaml

end Reindent
