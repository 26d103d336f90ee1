import Reindent.Yaml.Token

/-!
# Reindent.Yaml.Lexer

The tokens of a YAML stream.

* `Lexer`      — a place in the stream, the collections around it and the tokens so far.
* `Lexer.step?` — reads the next token.
* `tokens?`    — the tokens of a stream; `none` if it is malformed.

A key without a question mark is known only by the colon behind it. Where one can start, the
place is kept, and the token for a key is inserted there when the colon is met.
-/

namespace Reindent

namespace Yaml

/-- A place where a key may have started. -/
structure KeyStart where
  /-- Nothing but a key can stand there. -/
  required : Bool
  /-- The number of tokens in front of it. -/
  number : Nat
  index : Nat
  line : Nat
  column : Nat
  deriving DecidableEq, Repr

structure Lexer where
  cursor : Cursor
  /-- The column of the innermost block collection, or -1. -/
  indent : Int := -1
  /-- The columns of the collections around it, innermost first. -/
  outer : List Int := []
  /-- Where a key may have started: on the innermost level of flow collections, then on the levels
  around it, down to the level without any. -/
  starts : List (Option KeyStart) := [none]
  /-- A key can start at the next token. -/
  keyAllowed : Bool := true
  /-- The tokens, newest first, and their number. -/
  tokens : List Token := []
  count : Nat := 0

namespace Lexer

def inFlow (lexer : Lexer) : Bool :=
  lexer.starts.length > 1

def add (lexer : Lexer) (token : Token) : Lexer :=
  { lexer with tokens := token :: lexer.tokens, count := lexer.count + 1 }

/-- Inserts a token that has `number` tokens in front of it. -/
def insertAt (lexer : Lexer) (number : Nat) (token : Token) : Lexer :=
  let later := lexer.count - number
  { lexer with
    tokens := lexer.tokens.take later ++ token :: lexer.tokens.drop later
    count := lexer.count + 1 }

def skip (lexer : Lexer) (count : Nat) : Lexer :=
  { lexer with cursor := lexer.cursor.advance count }

def allowKey (lexer : Lexer) (allowed : Bool) : Lexer :=
  { lexer with keyAllowed := allowed }

/-! ### Block collections -/

/-- Starts a block collection at `column`, unless one stands there or right of it. Its token goes
behind the first `number` tokens. -/
def openBlock (lexer : Lexer) (column number : Nat) (token : Token) : Lexer :=
  if lexer.inFlow || lexer.indent ≥ column then lexer
  else
    { lexer with indent := column, outer := lexer.indent :: lexer.outer }.insertAt number token

def closeBlocksFrom (column : Int) : List Int → Lexer → Lexer
  | [], lexer => lexer
  | around :: outer, lexer =>
    if lexer.indent > column then
      closeBlocksFrom column outer ({ lexer with indent := around, outer }.add .blockEnd)
    else lexer

/-- Ends the block collections that stand right of `column`. -/
def closeBlocks (lexer : Lexer) (column : Int) : Lexer :=
  if lexer.inFlow then lexer else closeBlocksFrom column lexer.outer lexer

/-! ### Keys -/

/-- The longest key without a question mark. -/
def maxKeyLength : Nat := 1024

/-- The key has to end on its line and be short. -/
def isStale (cursor : Cursor) (start : KeyStart) : Bool :=
  start.line < cursor.line || start.index + maxKeyLength < cursor.index

/-- Gives up the places whose key can no longer end. -/
def dropStale? (lexer : Lexer) : Option Lexer :=
  let stale (start : Option KeyStart) : Bool := start.any (isStale lexer.cursor)
  if lexer.starts.any fun start => stale start && start.any KeyStart.required then none
  else
    some { lexer with starts := lexer.starts.map fun start => if stale start then none else start }

/-- Gives up the place on the innermost level. -/
def dropStart? (lexer : Lexer) : Option Lexer :=
  match lexer.starts with
  | some start :: rest =>
    if start.required then none else some { lexer with starts := none :: rest }
  | _ => some lexer

/-- Keeps the place as one where a key may start. -/
def keepStart? (lexer : Lexer) : Option Lexer :=
  if !lexer.keyAllowed then some lexer
  else do
    let lexer ← lexer.dropStart?
    let start : KeyStart :=
      { required := !lexer.inFlow && lexer.indent == lexer.cursor.column
        number := lexer.count
        index := lexer.cursor.index
        line := lexer.cursor.line
        column := lexer.cursor.column }
    return { lexer with starts := some start :: lexer.starts.tail }

/-! ### Between tokens -/

/-- Skips blanks, comments and line breaks. A tab does not count as a blank where a key can
start. -/
def skipSpace : Nat → Lexer → Lexer
  | 0, lexer => lexer
  | fuel + 1, lexer =>
    let tabs := lexer.inFlow || !lexer.keyAllowed
    let cursor := (lexer.cursor.skipWhile fun c => c == ' ' || (tabs && c == '\t')).skipComment
    if cursor.rest.head?.any isBreak then
      skipSpace fuel
        { lexer with
          cursor := cursor.skipBreak
          keyAllowed := lexer.keyAllowed || !lexer.inFlow }
    else { lexer with cursor }

/-! ### Tokens -/

/-- What stands between documents ends all collections. -/
def leaveDocument? (lexer : Lexer) : Option Lexer := do
  return (← (lexer.closeBlocks (-1)).dropStart?).allowKey false

def openFlow? (lexer : Lexer) (token : Token) : Option Lexer := do
  let lexer ← lexer.keepStart?
  return (({ lexer with starts := none :: lexer.starts }.allowKey true).add token).skip 1

def closeFlow? (lexer : Lexer) (token : Token) : Option Lexer := do
  let lexer ← lexer.dropStart?
  let starts := if lexer.inFlow then lexer.starts.tail else lexer.starts
  return (({ lexer with starts }.allowKey false).add token).skip 1

def flowEntry? (lexer : Lexer) : Option Lexer := do
  return (((← lexer.dropStart?).allowKey true).add .flowEntry).skip 1

/-- Starts a block collection at the place itself. -/
def openBlockHere? (lexer : Lexer) (token : Token) : Option Lexer :=
  if lexer.inFlow then some lexer
  else if !lexer.keyAllowed then none
  else some (lexer.openBlock lexer.cursor.column lexer.count token)

def blockEntry? (lexer : Lexer) : Option Lexer := do
  let lexer ← lexer.openBlockHere? .blockSequenceStart
  return (((← lexer.dropStart?).allowKey true).add .blockEntry).skip 1

def key? (lexer : Lexer) : Option Lexer := do
  let lexer ← (← lexer.openBlockHere? .blockMappingStart).dropStart?
  return ((lexer.allowKey (!lexer.inFlow)).add .key).skip 1

def value? (lexer : Lexer) : Option Lexer :=
  match lexer.starts with
  | some start :: rest =>
    let lexer :=
      (lexer.insertAt start.number .key).openBlock start.column start.number .blockMappingStart
    some ((({ lexer with starts := none :: rest }.allowKey false).add .value).skip 1)
  | _ => do
    let lexer ← lexer.openBlockHere? .blockMappingStart
    return ((lexer.allowKey (!lexer.inFlow)).add .value).skip 1

/-- Adds a token that may be the start of a key. -/
def node? (lexer : Lexer) (read : Cursor → Option (Token × Cursor)) : Option Lexer := do
  let lexer := (← lexer.keepStart?).allowKey false
  let (token, cursor) ← read lexer.cursor
  return { lexer with cursor }.add token

def quotedScalar? (lexer : Lexer) (single : Bool) : Option Lexer :=
  lexer.node? fun cursor =>
    (quoted? single cursor).map fun (text, cursor) =>
      (.scalar text (if single then .singleQuoted else .doubleQuoted), cursor)

def blockScalar? (lexer : Lexer) (isFolded : Bool) : Option Lexer := do
  let lexer := (← lexer.dropStart?).allowKey true
  let (text, cursor) ← block? isFolded lexer.indent lexer.cursor
  return { lexer with cursor }.add (.scalar text (if isFolded then .folded else .literal))

def plainScalar? (lexer : Lexer) : Option Lexer := do
  let lexer := (← lexer.keepStart?).allowKey false
  let (text, broken, cursor) ← plain? lexer.inFlow (lexer.indent + 1).toNat lexer.cursor
  return ({ lexer with cursor }.allowKey broken).add (.scalar text .plain)

/-- A plain scalar can start in front of this text. -/
def startsPlain (inFlow : Bool) (text : Text) : Bool :=
  match text with
  | [] => false
  | c :: rest =>
    !(isSpace c || "-?:,[]\x7b\x7d#&*!|>'\"%@\x60".toList.contains c) ||
      (c == '-' && !rest.head?.any isBlank) ||
      (!inFlow && (c == '?' || c == ':') && !endsWord rest)

/-- Reads a token that starts with `c`, which is no mark of a document. -/
def token? (lexer : Lexer) (c : Char) (rest : Text) : Option Lexer :=
  let wordEnds := lexer.inFlow || endsWord rest
  match c with
  | '[' => lexer.openFlow? .flowSequenceStart
  | '\x7b' => lexer.openFlow? .flowMappingStart
  | ']' => lexer.closeFlow? .flowSequenceEnd
  | '\x7d' => lexer.closeFlow? .flowMappingEnd
  | ',' => lexer.flowEntry?
  | '*' => lexer.node? fun cursor =>
    (anchorName? (cursor.advance 1)).map fun (name, cursor) => (.reference name, cursor)
  | '&' => lexer.node? fun cursor =>
    (anchorName? (cursor.advance 1)).map fun (name, cursor) => (.anchor name, cursor)
  | '!' => lexer.node? fun cursor =>
    (Tag.ofCursor? lexer.inFlow cursor).map fun (tag, cursor) => (.tag tag, cursor)
  | '\'' => lexer.quotedScalar? true
  | '"' => lexer.quotedScalar? false
  | c =>
    if c == '-' && endsWord rest then lexer.blockEntry?
    else if c == '?' && wordEnds then lexer.key?
    else if c == ':' && wordEnds then lexer.value?
    else if c == '|' && !lexer.inFlow then lexer.blockScalar? false
    else if c == '>' && !lexer.inFlow then lexer.blockScalar? true
    else if startsPlain lexer.inFlow (c :: rest) then lexer.plainScalar?
    else none

/-- Reads the next token, if the stream has not ended. -/
def next? (lexer : Lexer) : Option Lexer :=
  let cursor := lexer.cursor
  match cursor.rest with
  | [] => lexer.leaveDocument?
  | c :: rest =>
    if cursor.column == 0 && c == '%' then do
      let lexer ← lexer.leaveDocument?
      let (token, cursor) ← directive? lexer.cursor
      return { lexer with cursor }.add token
    else if cursor.atMark '-' then
      lexer.leaveDocument?.map fun lexer => (lexer.add .documentStart).skip 3
    else if cursor.atMark '.' then
      lexer.leaveDocument?.map fun lexer => (lexer.add .documentEnd).skip 3
    else lexer.token? c rest

/-- Reads the next token and what stands in front of it. -/
def step? (lexer : Lexer) : Option Lexer := do
  let lexer := skipSpace (lexer.cursor.rest.length + 1) lexer
  let lexer ← lexer.dropStale?
  (lexer.closeBlocks lexer.cursor.column).next?

/-- Reads all tokens. -/
def run? : Nat → Lexer → Option Lexer
  | 0, _ => none
  | fuel + 1, lexer => do
    let lexer ← lexer.step?
    if lexer.cursor.rest.isEmpty then lexer.step? else run? fuel lexer

end Lexer

/-- A mark that can stand at the start of a stream, where it takes a column. -/
def byteOrderMark : Char := '\ufeff'

/-- The tokens of a stream. -/
def tokens? (text : Text) : Option (List Token) := do
  guard (text.all isAllowed)
  let start : Cursor := { rest := text }
  let start := if text.head? == some byteOrderMark then start.advance 1 else start
  let lexer ← Lexer.run? (text.length + 1) { cursor := start }
  return lexer.tokens.reverse

end Yaml

end Reindent
