import Reindent.Text.Basic

/-!
# Reindent.Yaml.Cursor

A place in a YAML stream.

* `isAllowed`, `isBlank`, `isBreak`, `isWord` — the classes of characters.
* `Cursor`      — the text ahead, with line and column.
* `Gap`         — blanks and line breaks between two words, and what they fold to.
-/

namespace Reindent

namespace Yaml

/-- Characters that can stand in a stream. -/
def isAllowed (c : Char) : Bool :=
  let n := c.toNat
  n == 0x09 || n == 0x0A || n == 0x0D || (0x20 ≤ n && n ≤ 0x7E) || n == 0x85 ||
    (0xA0 ≤ n && n ≤ 0xD7FF) || (0xE000 ≤ n && n ≤ 0xFFFD) || 0x10000 ≤ n

def isBlank (c : Char) : Bool :=
  c == ' ' || c == '\t'

/-- Line feed, carriage return, next line, line separator and paragraph separator. -/
def isBreak (c : Char) : Bool :=
  c == '\n' || c == '\r' || c == '\u0085' || c == '\u2028' || c == '\u2029'

def isSpace (c : Char) : Bool :=
  isBlank c || isBreak c

/-- Characters of names. -/
def isWord (c : Char) : Bool :=
  c.isAlphanum || c == '_' || c == '-'

/-- A word ends in front of this text. -/
def endsWord (text : Text) : Bool :=
  text.head?.all isSpace

/-- A line ends in front of this text. -/
def endsLine (text : Text) : Bool :=
  text.head?.all isBreak

structure Cursor where
  rest : Text
  /-- How many characters have been read. -/
  index : Nat := 0
  line : Nat := 0
  column : Nat := 0
  deriving DecidableEq, Repr

namespace Cursor

/-- Skips `count` characters of the line. -/
def advance (cursor : Cursor) (count : Nat) : Cursor :=
  { cursor with
    rest := cursor.rest.drop count
    index := cursor.index + count
    column := cursor.column + count }

/-- Skips the characters of the line that have the property. -/
def skipWhile (cursor : Cursor) (p : Char → Bool) : Cursor :=
  cursor.advance (cursor.rest.takeWhile p).length

/-- Skips a line break, if one is next. -/
def skipBreak (cursor : Cursor) : Cursor :=
  match cursor.rest with
  | '\r' :: '\n' :: rest => ⟨rest, cursor.index + 2, cursor.line + 1, 0⟩
  | c :: rest => if isBreak c then ⟨rest, cursor.index + 1, cursor.line + 1, 0⟩ else cursor
  | [] => cursor

/-- The text of the line break that is next. All but the separators are read as line feeds. -/
def breakText (cursor : Cursor) : Text :=
  match cursor.rest with
  | c :: _ =>
    if c == '\u2028' || c == '\u2029' then [c] else if isBreak c then ['\n'] else []
  | [] => []

/-- A comment is skipped to the end of its line. -/
def skipComment (cursor : Cursor) : Cursor :=
  if cursor.rest.head? == some '#' then cursor.skipWhile fun c => !isBreak c else cursor

/-- Skips the rest of a line that holds no more than a comment. -/
def endLine? (cursor : Cursor) : Option Cursor :=
  let cursor := (cursor.skipWhile isBlank).skipComment
  if endsLine cursor.rest then some cursor.skipBreak else none

/-- Three equal characters that stand at the start of a line as a word. -/
def atMark (cursor : Cursor) (c : Char) : Bool :=
  cursor.column == 0 &&
    match [c, c, c].isPrefixOf? cursor.rest with
    | some rest => endsWord rest
    | none => false

/-- The start or the end of a document is marked here. -/
def atDocumentMark (cursor : Cursor) : Bool :=
  cursor.atMark '-' || cursor.atMark '.'

end Cursor

structure Gap where
  /-- The blanks in front of the first line break. -/
  blanks : Text := []
  first : Text := []
  /-- The line breaks after the first. -/
  others : Text := []
  /-- There is a line break. -/
  broken : Bool := false
  deriving DecidableEq, Repr

namespace Gap

/-- What the gap folds to: a single line break to a blank, further ones to themselves. -/
def text (gap : Gap) : Text :=
  if !gap.broken then gap.blanks
  else if gap.first == ['\n'] then if gap.others.isEmpty then [' '] else gap.others
  else gap.first ++ gap.others

/-- Adds the line break that is next. -/
def addBreak (gap : Gap) (cursor : Cursor) : Gap :=
  if gap.broken then { gap with others := gap.others ++ cursor.breakText }
  else { gap with blanks := [], first := cursor.breakText, broken := true }

/-- Reads on in a gap. After a line break no tab can stand left of the column `indent`. -/
def scan? (indent : Nat) : Nat → Gap → Cursor → Option (Gap × Cursor)
  | 0, _, _ => none
  | fuel + 1, gap, cursor =>
    match cursor.rest with
    | [] => some (gap, cursor)
    | c :: _ =>
      if isBlank c then
        if gap.broken && cursor.column < indent && c == '\t' then none
        else
          let gap := if gap.broken then gap else { gap with blanks := gap.blanks ++ [c] }
          scan? indent fuel gap (cursor.advance 1)
      else if isBreak c then scan? indent fuel (gap.addBreak cursor) cursor.skipBreak
      else some (gap, cursor)

end Gap

end Yaml

end Reindent
