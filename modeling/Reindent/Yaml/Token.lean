import Reindent.Yaml.Scalar

/-!
# Reindent.Yaml.Token

The tokens of YAML, and the small ones among their readers.

* `Token`      — a token.
* `Tag`        — a tag as it is written.
* `directive?`, `anchorName?`, `Tag.ofCursor?` — readers.
-/

namespace Reindent

namespace Yaml

/-- A tag as it is written: the name of a directive, and what follows it. -/
structure Tag where
  handle : Text
  suffix : Text
  deriving DecidableEq, Repr

inductive Token where
  | version (major minor : Nat)
  /-- A directive that gives the meaning of a tag's handle. -/
  | tagDirective (handle meaning : Text)
  | documentStart
  | documentEnd
  | blockSequenceStart
  | blockMappingStart
  | blockEnd
  | flowSequenceStart
  | flowSequenceEnd
  | flowMappingStart
  | flowMappingEnd
  | blockEntry
  | flowEntry
  | key
  | value
  /-- An alias. -/
  | reference (name : Text)
  | anchor (name : Text)
  | tag (tag : Tag)
  | scalar (text : Text) (style : Style)
  deriving DecidableEq, Repr

/-! ### Anchors -/

/-- Reads the name of an anchor or an alias behind its sign. -/
def anchorName? (cursor : Cursor) : Option (Text × Cursor) := do
  let name := cursor.rest.takeWhile isWord
  let cursor := cursor.advance name.length
  let ends := cursor.rest.head?.all fun c =>
    isSpace c || ['?', ':', ',', ']', '\x7d', '%', '@', '\x60'].contains c
  guard (!name.isEmpty && ends)
  return (name, cursor)

/-! ### Tags -/

/-- Characters of the part of a tag behind its handle. -/
def isTagChar (verbatim : Bool) (c : Char) : Bool :=
  isWord c || ";/?:@&=+$.%!~*'()".toList.contains c || (verbatim && ",[]".toList.contains c)

/-- A byte that is written as a percent sign and two digits. -/
def escapedByte? (text : Text) : Option Nat :=
  match text with
  | '%' :: a :: b :: _ => Text.numeral? 16 [a, b]
  | _ => none

/-- The number of bytes of a character that starts with the given one. -/
def byteCount? (first : Nat) : Option Nat :=
  if first < 0x80 then some 1
  else if 0xC0 ≤ first && first < 0xE0 then some 2
  else if 0xE0 ≤ first && first < 0xF0 then some 3
  else if 0xF0 ≤ first && first < 0xF8 then some 4
  else none

/-- Reads a character of `count` escaped bytes, and the text behind it. -/
def escapedBytes? : Nat → Text → Option (List Nat × Text)
  | 0, text => some ([], text)
  | count + 1, text => do
    let byte ← escapedByte? text
    let (bytes, rest) ← escapedBytes? count (text.drop 3)
    return (byte :: bytes, rest)

/-- Reads a character that is written as escaped bytes; the answer also gives the length of the
escapes. -/
def escapedChar? (text : Text) : Option (Char × Nat) := do
  let first ← escapedByte? text
  let count ← byteCount? first
  let (bytes, _) ← escapedBytes? count text
  guard (bytes.tail.all fun byte => 0x80 ≤ byte && byte < 0xC0)
  let bytes : ByteArray := ⟨(bytes.map Nat.toUInt8).toArray⟩
  let c ← (← String.fromUTF8? bytes).toList.head?
  return (c, 3 * count)

/-- Reads the part of a tag behind its handle, and its length. -/
def tagText? (verbatim : Bool) : Nat → Text → Option (Text × Nat)
  | 0, _ => none
  | _ + 1, [] => some ([], 0)
  | fuel + 1, c :: rest =>
    if !isTagChar verbatim c then some ([], 0)
    else if c == '%' then do
      let (c, length) ← escapedChar? (c :: rest)
      let (text, more) ← tagText? verbatim fuel ((c :: rest).drop length)
      return (c :: text, length + more)
    else do
      let (text, more) ← tagText? verbatim fuel rest
      return (c :: text, more + 1)

/-- Reads an exclamation mark, a name and possibly another mark. -/
def tagHandle (text : Text) : Text :=
  match text with
  | c :: rest =>
    let name := rest.takeWhile isWord
    let mark := (rest.drop name.length).take 1
    c :: name ++ if mark == ['!'] then mark else []
  | [] => []

namespace Tag

/-- The text is a handle between two exclamation marks. -/
def isNamed (handle : Text) : Bool :=
  handle.length > 1 && handle.getLast? == some '!'

/-- Reads a tag in angle brackets, from its exclamation mark. -/
def verbatim? (cursor : Cursor) : Option (Tag × Cursor) := do
  let cursor := cursor.advance 2
  let (suffix, length) ← tagText? true (cursor.rest.length + 1) cursor.rest
  let cursor := cursor.advance length
  guard (length > 0 && cursor.rest.head? == some '>')
  return ({ handle := [], suffix }, cursor.advance 1)

/-- Reads a tag with a handle or without one. -/
def short? (cursor : Cursor) : Option (Tag × Cursor) := do
  let handle := tagHandle cursor.rest
  let cursor := cursor.advance handle.length
  let (text, length) ← tagText? false (cursor.rest.length + 1) cursor.rest
  let cursor := cursor.advance length
  if isNamed handle then
    guard (length > 0)
    return ({ handle, suffix := text }, cursor)
  else
    match handle.drop 1 ++ text with
    | [] => return ({ handle := [], suffix := ['!'] }, cursor)
    | suffix => return ({ handle := ['!'], suffix }, cursor)

/-- Reads a tag from its exclamation mark. -/
def ofCursor? (inFlow : Bool) (cursor : Cursor) : Option (Tag × Cursor) := do
  let (tag, cursor) ←
    if cursor.rest.tail.head? == some '<' then verbatim? cursor else short? cursor
  guard (endsWord cursor.rest || (inFlow && cursor.rest.head? == some ','))
  return (tag, cursor)

end Tag

/-! ### Directives -/

/-- The most digits of a version number. -/
def maxVersionDigits : Nat := 9

/-- Reads a part of a version number. -/
def versionNumber? (cursor : Cursor) : Option (Nat × Cursor) := do
  let digits := cursor.rest.takeWhile Text.isDigit
  guard (digits.length ≤ maxVersionDigits)
  return (← Text.numeral? 10 digits, cursor.advance digits.length)

def versionDirective? (cursor : Cursor) : Option (Token × Cursor) := do
  let (major, cursor) ← versionNumber? (cursor.skipWhile isBlank)
  guard (cursor.rest.head? == some '.')
  let (minor, cursor) ← versionNumber? (cursor.advance 1)
  return (.version major minor, cursor)

def tagDirective? (cursor : Cursor) : Option (Token × Cursor) := do
  let cursor := cursor.skipWhile isBlank
  guard (cursor.rest.head? == some '!')
  let handle := tagHandle cursor.rest
  guard (handle == ['!'] || Tag.isNamed handle)
  let cursor := cursor.advance handle.length
  guard (cursor.rest.head?.any isBlank)
  let cursor := cursor.skipWhile isBlank
  let (meaning, length) ← tagText? true (cursor.rest.length + 1) cursor.rest
  let cursor := cursor.advance length
  guard (length > 0 && endsWord cursor.rest)
  return (.tagDirective handle meaning, cursor)

/-- Reads a directive from its percent sign to the end of its line. -/
def directive? (cursor : Cursor) : Option (Token × Cursor) := do
  let cursor := cursor.advance 1
  let name := cursor.rest.takeWhile isWord
  let cursor := cursor.advance name.length
  guard (!name.isEmpty && endsWord cursor.rest)
  let (token, cursor) ←
    if name == "YAML".toList then versionDirective? cursor
    else if name == "TAG".toList then tagDirective? cursor
    else none
  return (token, ← cursor.endLine?)

end Yaml

end Reindent
