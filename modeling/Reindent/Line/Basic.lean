import Reindent.Line.Pair
import Reindent.Line.BlockScalar

/-!
# Reindent.Line.Basic

Lines of a document, each read on its own.

* `Category` — what kind of line it is.
* `Line`     — a line with its depth, its category and the mapping entry it introduces.
* `Line.ofText` — reads a line; no line looks at its neighbours.
-/

namespace Reindent

inductive Category where
  | blank
  | comment
  /-- A mapping key without a value on its line. -/
  | key
  /-- An entry of a sequence: a dash alone, or a dash and a space. -/
  | item
  /-- Anything else: a key with its value, or continued text. -/
  | scalar
  /-- A tab in the indentation, so the depth cannot be trusted. -/
  | malformed
  deriving DecidableEq, Repr

structure Line where
  /-- The line without its terminator. -/
  text : Text
  /-- The number of leading spaces. -/
  indent : Nat
  category : Category
  /-- The key the line introduces; for an item, the key of the entry after the dash. -/
  key : Option Text
  /-- The value on the line, after the key. -/
  value : Option Text
  /-- The line ends in the header of a block scalar, whose text is the deeper lines below. -/
  blockScalar : Bool
  deriving DecidableEq, Repr

namespace Line

/-- The text after the indentation. -/
def content (line : Line) : Text :=
  line.text.drop line.indent

/-- Blank lines and comments have no part in the structure. -/
def isTrivia (line : Line) : Bool :=
  line.category == .blank || line.category == .comment

/-- The line takes part in the structure of the document. -/
def isStructural (line : Line) : Bool :=
  !line.isTrivia && line.category != .malformed

def isItem (line : Line) : Bool :=
  line.category == .item

/-- What an item holds after its dash. -/
def payload? (line : Line) : Option Text :=
  if line.isItem then
    some (Text.trimStart ((['-'].isPrefixOf? line.content).getD line.content))
  else none

/-- How far the payload is from the dash, in columns. -/
def payloadOffset (line : Line) : Nat :=
  Text.width line.content - Text.width (line.payload?.getD [])

/-- An item whose payload is a key without a value, such as `- block:`. -/
def itemOpensKey (line : Line) : Bool :=
  line.isItem && line.key.isSome && line.value.isNone

/-- A key with its value on one line, and no block scalar below. -/
def isInlinePair (line : Line) : Bool :=
  line.category == .scalar && line.key.isSome && line.value.isSome && !line.blockScalar

/-- A line of category `category` that introduces nothing. -/
def plain (text : Text) (category : Category) : Line :=
  { text, indent := text.indent, category, key := none, value := none, blockScalar := false }

/-- The line is an item, `body` being its text without indentation and trailing blanks. -/
def isItemBody (body : Text) : Bool :=
  body == ['-'] || ['-', ' '].isPrefixOf body

/-- Reads an item from its payload. -/
def ofItem (text payload : Text) : Line :=
  let pair := Pair.ofText? payload
  let value := pair.bind Pair.value
  { text, indent := text.indent, category := .item, key := pair.map Pair.key, value,
    blockScalar := isBlockHeader (value.getD payload) }

/-- Reads a line that introduces a mapping entry. -/
def ofPair (text : Text) (pair : Pair) : Line :=
  { text, indent := text.indent, category := if pair.value.isNone then .key else .scalar,
    key := some pair.key, value := pair.value, blockScalar := pair.value.any isBlockHeader }

/-- Reads a line. -/
def ofText (text : Text) : Line :=
  let trimmed := Text.trim text
  if trimmed.isEmpty then plain text .blank
  else if (text.takeWhile fun c => c == ' ' || c == '\t').contains '\t' then plain text .malformed
  else if ['#'].isPrefixOf trimmed then plain text .comment
  else
    let body := Text.trimEnd (text.drop text.indent)
    if isItemBody body then ofItem text (Text.trimStart (body.drop 1))
    else
      match Pair.ofText? body with
      | some pair => ofPair text pair
      | none => plain text .scalar

end Line

end Reindent
