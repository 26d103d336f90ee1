import Reindent.Yaml.Cursor
import Reindent.Text.Number

/-!
# Reindent.Yaml.Scalar

Reads the scalars of YAML. Each reader gives the text and the place behind it.

* `plain?`  — without quotes.
* `quoted?` — in single or double quotes.
* `block?`  — literal and folded blocks.
-/

namespace Reindent

namespace Yaml

inductive Style where
  | plain
  | singleQuoted
  | doubleQuoted
  | literal
  | folded
  deriving DecidableEq, Repr

/-! ### Plain scalars -/

def flowIndicators : Text :=
  [',', '[', ']', '\x7b', '\x7d']

/-- The characters of a plain scalar up to a space or to what ends the scalar. In a flow
collection a colon cannot stand in front of a flow indicator. -/
def plainRun? (inFlow : Bool) : Text → Option Text
  | [] => some []
  | c :: rest =>
    if isSpace c then some []
    else if inFlow && c == ':' && rest.head?.any fun d => d == '?' || flowIndicators.contains d then
      none
    else if (c == ':' && endsWord rest) || (inFlow && flowIndicators.contains c) then some []
    else (plainRun? inFlow rest).map (c :: ·)

/-- Reads on in a plain scalar of which `text` has been read, and `gap` behind that. The answer
also tells whether the place behind the scalar is on another line than its end. -/
def plainFrom? (inFlow : Bool) (indent : Nat) :
    Nat → Gap → Text → Cursor → Option (Text × Bool × Cursor)
  | 0, _, _, _ => none
  | fuel + 1, gap, text, cursor =>
    if cursor.atDocumentMark || cursor.rest.head? == some '#' then some (text, gap.broken, cursor)
    else do
      let run ← plainRun? inFlow cursor.rest
      let (text, gap) := if run.isEmpty then (text, gap) else (text ++ gap.text ++ run, {})
      let cursor := cursor.advance run.length
      if !cursor.rest.head?.any isSpace then return (text, gap.broken, cursor)
      else
        let (gap, cursor) ← gap.scan? indent (cursor.rest.length + 1) cursor
        if !inFlow && cursor.column < indent then return (text, gap.broken, cursor)
        else plainFrom? inFlow indent fuel gap text cursor

/-- Reads a plain scalar whose further lines stand at the column `indent` or right of it. -/
def plain? (inFlow : Bool) (indent : Nat) (cursor : Cursor) : Option (Text × Bool × Cursor) :=
  plainFrom? inFlow indent (cursor.rest.length + 1) {} [] cursor

/-! ### Quoted scalars -/

/-- What a character stands for behind a backslash. -/
def escaped? (c : Char) : Option Char :=
  match c with
  | '0' => some '\x00'
  | 'a' => some '\x07'
  | 'b' => some '\x08'
  | 't' | '\t' => some '\t'
  | 'n' => some '\n'
  | 'v' => some '\x0b'
  | 'f' => some '\x0c'
  | 'r' => some '\r'
  | 'e' => some '\x1b'
  | ' ' => some ' '
  | '"' => some '"'
  | '/' => some '/'
  | '\\' => some '\\'
  | 'N' => some '\u0085'
  | '_' => some '\u00a0'
  | 'L' => some '\u2028'
  | 'P' => some '\u2029'
  | _ => none

/-- How many digits follow a character behind a backslash. -/
def codeLength? (c : Char) : Option Nat :=
  match c with
  | 'x' => some 2
  | 'u' => some 4
  | 'U' => some 8
  | _ => none

/-- The character that the text behind a backslash starts with, and how long its escape is. -/
def escape? (text : Text) : Option (Char × Nat) := do
  let c :: rest := text | none
  match codeLength? c with
  | none => return (← escaped? c, 1)
  | some length =>
    guard (length ≤ rest.length)
    let n ← Text.numeral? 16 (rest.take length)
    if n.isValidChar then some (Char.ofNat n, length + 1) else none

structure Run where
  text : Text := []
  /-- The run ended with an escaped line break. -/
  continued : Bool := false
  cursor : Cursor

def Run.prepend (c : Char) (run : Run) : Run :=
  { run with text := c :: run.text }

/-- Reads on in a quoted scalar up to a space, an escaped line break or the closing quote. -/
def quotedRun? (single : Bool) : Nat → Cursor → Option Run
  | 0, _ => none
  | fuel + 1, cursor =>
    match cursor.rest with
    | [] => some { cursor }
    | c :: rest =>
      if isSpace c then some { cursor }
      else if single then
        if c != '\'' then (quotedRun? single fuel (cursor.advance 1)).map (Run.prepend c)
        else if rest.head? == some '\'' then
          (quotedRun? single fuel (cursor.advance 2)).map (Run.prepend c)
        else some { cursor }
      else if c == '"' then some { cursor }
      else if c == '\\' then
        if rest.head?.any isBreak then
          some { continued := true, cursor := (cursor.advance 1).skipBreak }
        else do
          let (e, length) ← escape? rest
          (quotedRun? single fuel (cursor.advance (length + 1))).map (Run.prepend e)
      else (quotedRun? single fuel (cursor.advance 1)).map (Run.prepend c)

/-- Reads on in a quoted scalar of which `text` has been read. -/
def quotedFrom? (single : Bool) : Nat → Text → Cursor → Option (Text × Cursor)
  | 0, _, _ => none
  | fuel + 1, text, cursor =>
    if cursor.atDocumentMark || cursor.rest.isEmpty then none
    else do
      let run ← quotedRun? single (cursor.rest.length + 1) cursor
      let text := text ++ run.text
      if run.cursor.rest.head? == some (if single then '\'' else '"') then
        return (text, run.cursor.advance 1)
      else
        let (gap, cursor) ←
          Gap.scan? 0 (run.cursor.rest.length + 1) { broken := run.continued } run.cursor
        quotedFrom? single fuel (text ++ gap.text) cursor

/-- Reads a quoted scalar from its opening quote. -/
def quoted? (single : Bool) (cursor : Cursor) : Option (Text × Cursor) :=
  quotedFrom? single (cursor.rest.length + 1) [] (cursor.advance 1)

/-! ### Block scalars -/

/-- What becomes of the line breaks at the end of a block. -/
inductive Chomping where
  | strip
  | clip
  | keep
  deriving DecidableEq, Repr

structure Header where
  chomping : Chomping := .clip
  /-- How much deeper than its parent the block is, if that is given. -/
  increment : Option Nat := none
  deriving DecidableEq, Repr

namespace Header

def chomping? (c : Char) : Option Chomping :=
  if c == '+' then some .keep else if c == '-' then some .strip else none

/-- Adds an indentation indicator. -/
def withIncrement? (header : Header) (c : Char) : Option Header :=
  if c == '0' then none else some { header with increment := some (c.toNat - '0'.toNat) }

/-- Reads the indicators of a block, and how many there are. -/
def ofText? (text : Text) : Option (Header × Nat) :=
  match text with
  | [] => some ({}, 0)
  | c :: rest =>
    match chomping? c with
    | some chomping =>
      let header : Header := { chomping }
      match rest with
      | d :: _ =>
        if Text.isDigit d then (header.withIncrement? d).map (·, 2) else some (header, 1)
      | [] => some (header, 1)
    | none =>
      if Text.isDigit c then do
        let header ← withIncrement? {} c
        match rest.head?.bind chomping? with
        | some chomping => return ({ header with chomping }, 2)
        | none => return (header, 1)
      else some ({}, 0)

end Header

/-- Reads the line breaks in front of a line of a block, and the indentation of that line up to
the column `indent`; `none` as the indent takes all. `deepest` is the deepest column so far. -/
def blockBreaks? (indent : Option Nat) :
    Nat → Nat → Text → Cursor → Option (Nat × Text × Cursor)
  | 0, _, _, _ => none
  | fuel + 1, deepest, breaks, cursor =>
    let spaces := (cursor.rest.takeWhile (· == ' ')).length
    let taken := indent.elim spaces fun indent => min spaces (indent - cursor.column)
    let cursor := cursor.advance taken
    let deepest := max deepest cursor.column
    if indent.all (cursor.column < ·) && cursor.rest.head? == some '\t' then none
    else if cursor.rest.head?.any isBreak then
      blockBreaks? indent fuel deepest (breaks ++ cursor.breakText) cursor.skipBreak
    else some (deepest, breaks, cursor)

/-- What has been read of a block. -/
structure Block where
  text : Text := []
  /-- The line break behind the last line. -/
  ending : Text := []
  /-- The line breaks behind that. -/
  breaks : Text := []
  /-- The last line starts with a blank. -/
  blank : Bool := false

namespace Block

/-- What stands between the last line and the next one, which starts with a blank or does not. -/
def joint (block : Block) (isFolded blank : Bool) : Text :=
  if isFolded && block.ending == ['\n'] && !block.blank && !blank then
    if block.breaks.isEmpty then [' '] else block.breaks
  else block.ending ++ block.breaks

/-- Reads the lines of a block at the column `indent`. -/
def lines? (isFolded : Bool) (indent : Nat) : Nat → Block → Cursor → Option (Block × Cursor)
  | 0, _, _ => none
  | fuel + 1, block, cursor =>
    if cursor.column != indent || cursor.rest.isEmpty then some (block, cursor)
    else do
      let blank := cursor.rest.head?.any isBlank
      let line := cursor.rest.takeWhile fun c => !isBreak c
      let cursor := cursor.advance line.length
      let text := block.text ++ block.joint isFolded blank ++ line
      let ending := cursor.breakText
      let cursor := cursor.skipBreak
      let (_, breaks, cursor) ← blockBreaks? (some indent) (cursor.rest.length + 1) 0 [] cursor
      lines? isFolded indent fuel { text, ending, breaks, blank } cursor

def finish (block : Block) : Chomping → Text
  | .strip => block.text
  | .clip => block.text ++ block.ending
  | .keep => block.text ++ block.ending ++ block.breaks

end Block

/-- Reads a block from its indicator, `parent` being the indentation around it, or -1. -/
def block? (isFolded : Bool) (parent : Int) (cursor : Cursor) : Option (Text × Cursor) := do
  let cursor := cursor.advance 1
  let (header, length) ← Header.ofText? cursor.rest
  let cursor ← (cursor.advance length).endLine?
  let given := header.increment.map fun increment => (max parent 0).toNat + increment
  let (deepest, breaks, cursor) ← blockBreaks? given (cursor.rest.length + 1) 0 [] cursor
  let indent := given.getD (max (max deepest (parent + 1).toNat) 1)
  let (block, cursor) ←
    Block.lines? isFolded indent (cursor.rest.length + 1) { breaks } cursor
  return (block.finish header.chomping, cursor)

end Yaml

end Reindent
