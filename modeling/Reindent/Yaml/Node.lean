import Reindent.Yaml.Lexer

/-!
# Reindent.Yaml.Node

The tree of a YAML document.

* `Node`      — scalars, sequences, mappings and aliases.
* `Reading`   — the tokens ahead, with the anchors and the handles of tags that are known there.
* `document?` — the tree of the only document of a stream.

A node is left out where a token stands that cannot start one; it is then an empty scalar.
-/

namespace Reindent

namespace Yaml

/-- A node, with the number of its anchor if it has one. -/
inductive Node where
  | scalar (anchor : Option Nat) (text : Text) (style : Style) (tag : Option Text)
  | sequence (anchor : Option Nat) (entries : List Node)
  | mapping (anchor : Option Nat) (fields : List (Node × Node))
  /-- An alias. -/
  | reference (anchor : Nat)
  deriving Repr

namespace Node

/-- The node that is not written. -/
def empty : Node :=
  .scalar none [] .plain none

def ofAnchor (anchor : Option Nat) (node : Node) : List (Nat × Node) :=
  anchor.toList.map fun anchor => (anchor, node)

mutual

/-- The nodes with an anchor, in the order in which they start. -/
def anchored : Node → List (Nat × Node)
  | scalar anchor text style tag => ofAnchor anchor (scalar anchor text style tag)
  | sequence anchor entries => ofAnchor anchor (sequence anchor entries) ++ anchoredEntries entries
  | mapping anchor fields => ofAnchor anchor (mapping anchor fields) ++ anchoredFields fields
  | reference _ => []

def anchoredEntries : List Node → List (Nat × Node)
  | [] => []
  | entry :: entries => anchored entry ++ anchoredEntries entries

def anchoredFields : List (Node × Node) → List (Nat × Node)
  | [] => []
  | (key, value) :: fields => anchored key ++ anchored value ++ anchoredFields fields

end

end Node

structure Reading where
  tokens : List Token
  /-- The names of anchors, each once, with the number that it stands for. -/
  anchors : List (Text × Nat) := []
  /-- The handles of tags and what they stand for. -/
  handles : List (Text × Text) := []

namespace Reading

/-- Gives a name a number, which is the count of the other names at its first use. -/
def nameAnchor (reading : Reading) (name : Text) : Nat × Reading :=
  let number := reading.anchors.length
  let others := reading.anchors.filter fun anchor => anchor.1 != name
  (number, { reading with anchors := (name, number) :: others })

/-- What a tag stands for. -/
def meaning? (reading : Reading) (tag : Tag) : Option Text :=
  if tag.handle.isEmpty then some tag.suffix
  else (reading.handles.lookup tag.handle).map (· ++ tag.suffix)

/-- Reads an anchor, if one is next. -/
def anchor (reading : Reading) : Option Nat × Reading :=
  match reading.tokens with
  | .anchor name :: tokens =>
    let (number, reading) := { reading with tokens }.nameAnchor name
    (some number, reading)
  | _ => (none, reading)

/-- Reads a tag, if one is next. -/
def tag? (reading : Reading) : Option (Option Text × Reading) :=
  match reading.tokens with
  | .tag tag :: tokens =>
    (reading.meaning? tag).map fun text => (some text, { reading with tokens })
  | _ => some (none, reading)

/-- Reads an anchor and a tag, in either order. -/
def properties? (reading : Reading) : Option (Option Nat × Option Text × Reading) := do
  match reading.anchor with
  | (some number, reading) =>
    let (tag, reading) ← reading.tag?
    return (some number, tag, reading)
  | (none, reading) =>
    let (tag, reading) ← reading.tag?
    let (anchor, reading) := if tag.isSome then reading.anchor else (none, reading)
    return (anchor, tag, reading)

def next? (reading : Reading) : Option Token :=
  reading.tokens.head?

def skip (reading : Reading) : Reading :=
  { reading with tokens := reading.tokens.tail }

end Reading

/-- Where a node stands. -/
inductive Site where
  | flow
  | block
  /-- A key or a value of a block mapping. A sequence can stand in its column. -/
  | field
  deriving DecidableEq, Repr

/-- Ends the value of a block mapping. -/
def fieldEnds : List Token :=
  [.key, .value, .blockEnd]

mutual

def node? (site : Site) : Nat → Reading → Option (Node × Reading)
  | 0, _ => none
  | fuel + 1, reading => do
    if let some (.reference name) := reading.next? then
      return (.reference (← reading.anchors.lookup name), reading.skip)
    let (anchor, tag, reading) ← reading.properties?
    match reading.next? with
    | some (.scalar text style) =>
      return (.scalar anchor text style (tag.filter (· != ['!'])), reading.skip)
    | some .flowSequenceStart =>
      let (entries, reading) ← flowEntries? true fuel reading.skip
      return (.sequence anchor entries, reading)
    | some .flowMappingStart =>
      let (fields, reading) ← flowFields? true fuel reading.skip
      return (.mapping anchor fields, reading)
    | next =>
      if next == some .blockEntry && site == .field then
        let (entries, reading) ← levelEntries? fuel reading
        return (.sequence anchor entries, reading)
      else if next == some .blockSequenceStart && site != .flow then
        let (entries, reading) ← blockEntries? fuel reading.skip
        return (.sequence anchor entries, reading)
      else if next == some .blockMappingStart && site != .flow then
        let (fields, reading) ← blockFields? fuel reading.skip
        return (.mapping anchor fields, reading)
      else if anchor.isSome || tag.isSome then return (.scalar anchor [] .plain tag, reading)
      else none

/-- The node that is next, unless it is left out in front of one of the tokens in `ends`. -/
def nodeBefore? (ends : List Token) (site : Site) : Nat → Reading → Option (Node × Reading)
  | 0, _ => none
  | fuel + 1, reading =>
    if reading.next?.any ends.contains then some (.empty, reading) else node? site fuel reading

/-- The entries of a block sequence up to its end. -/
def blockEntries? : Nat → Reading → Option (List Node × Reading)
  | 0, _ => none
  | fuel + 1, reading => do
    match reading.next? with
    | some .blockEntry =>
      let (entry, reading) ← nodeBefore? [.blockEntry, .blockEnd] .block fuel reading.skip
      let (entries, reading) ← blockEntries? fuel reading
      return (entry :: entries, reading)
    | some .blockEnd => return ([], reading.skip)
    | _ => none

/-- The entries of a sequence that stands in the column of the mapping around it. -/
def levelEntries? : Nat → Reading → Option (List Node × Reading)
  | 0, _ => none
  | fuel + 1, reading => do
    match reading.next? with
    | some .blockEntry =>
      let (entry, reading) ← nodeBefore? (.blockEntry :: fieldEnds) .block fuel reading.skip
      let (entries, reading) ← levelEntries? fuel reading
      return (entry :: entries, reading)
    | _ => return ([], reading)

/-- The fields of a block mapping up to its end. -/
def blockFields? : Nat → Reading → Option (List (Node × Node) × Reading)
  | 0, _ => none
  | fuel + 1, reading => do
    match reading.next? with
    | some .key =>
      let (key, reading) ← nodeBefore? fieldEnds .field fuel reading.skip
      let (value, reading) ← valueBefore? fieldEnds .field fuel reading
      let (fields, reading) ← blockFields? fuel reading
      return ((key, value) :: fields, reading)
    | some .blockEnd => return ([], reading.skip)
    | _ => none

/-- The value that is next. It is left out where no colon is, or in front of one of the tokens in
`ends`. -/
def valueBefore? (ends : List Token) (site : Site) : Nat → Reading → Option (Node × Reading)
  | 0, _ => none
  | fuel + 1, reading =>
    if reading.next? == some .value then nodeBefore? ends site fuel reading.skip
    else some (.empty, reading)

/-- The entries of a flow sequence up to its end. A pair among them is a mapping of its own. -/
def flowEntries? (first : Bool) : Nat → Reading → Option (List Node × Reading)
  | 0, _ => none
  | fuel + 1, reading => do
    if reading.next? == some .flowSequenceEnd then return ([], reading.skip)
    let reading ←
      if first then some reading
      else if reading.next? == some .flowEntry then some reading.skip
      else none
    match reading.next? with
    | some .flowSequenceEnd => return ([], reading.skip)
    | some .key =>
      let (pair, reading) ← flowPair? fuel reading.skip
      let (entries, reading) ← flowEntries? false fuel reading
      return (.mapping none [pair] :: entries, reading)
    | _ =>
      let (entry, reading) ← node? .flow fuel reading
      let (entries, reading) ← flowEntries? false fuel reading
      return (entry :: entries, reading)

/-- A pair in a flow sequence. Where its key is left out, the token there is skipped. -/
def flowPair? : Nat → Reading → Option ((Node × Node) × Reading)
  | 0, _ => none
  | fuel + 1, reading => do
    let ends := [.flowEntry, .flowSequenceEnd]
    let (key, reading) ←
      if reading.next?.any (.value :: ends).contains then some (.empty, reading.skip)
      else node? .flow fuel reading
    let (value, reading) ← valueBefore? ends .flow fuel reading
    return ((key, value), reading)

/-- The fields of a flow mapping up to its end. -/
def flowFields? (first : Bool) : Nat → Reading → Option (List (Node × Node) × Reading)
  | 0, _ => none
  | fuel + 1, reading => do
    if reading.next? == some .flowMappingEnd then return ([], reading.skip)
    let reading ←
      if first then some reading
      else if reading.next? == some .flowEntry then some reading.skip
      else none
    let ends := [.flowEntry, .flowMappingEnd]
    match reading.next? with
    | some .flowMappingEnd => return ([], reading.skip)
    | some .key =>
      let (key, reading) ← nodeBefore? (.value :: ends) .flow fuel reading.skip
      let (value, reading) ← valueBefore? ends .flow fuel reading
      let (fields, reading) ← flowFields? false fuel reading
      return ((key, value) :: fields, reading)
    | _ =>
      let (key, reading) ← node? .flow fuel reading
      let (fields, reading) ← flowFields? false fuel reading
      return ((key, .empty) :: fields, reading)

end

/-! ### Documents -/

/-- The handles that have a meaning in every document. -/
def commonHandles : List (Text × Text) :=
  [("!".toList, "!".toList), ("!!".toList, "tag:yaml.org,2002:".toList)]

/-- A document of this version can be read. -/
def isKnownVersion (major minor : Nat) : Bool :=
  major == 1 && (minor == 1 || minor == 2)

/-- Reads the directives in front of a document, and gives the handles that they name and the
tokens behind them. The flag tells that the version is given already. -/
def directives? (versioned : Bool) (handles : List (Text × Text)) :
    List Token → Option (List (Text × Text) × List Token)
  | .version major minor :: tokens =>
    if versioned || !isKnownVersion major minor then none else directives? true handles tokens
  | .tagDirective handle meaning :: tokens =>
    if (handles.lookup handle).isSome then none
    else directives? versioned ((handle, meaning) :: handles) tokens
  | tokens => some (handles, tokens)

/-- Reads a document, and gives the tokens behind it. -/
def nextDocument? (tokens : List Token) : Option (Node × List Token) := do
  let (handles, behind) ← directives? false [] tokens
  let fuel := 4 * tokens.length + 8
  let marked := behind.length < tokens.length
  match behind with
  | [] => if marked then none else return (.empty, [])
  | .documentStart :: content =>
    let (node, reading) ←
      match content with
      | [] | .version .. :: _ | .tagDirective .. :: _ | .documentStart :: _ | .documentEnd :: _ =>
        some (.empty, { tokens := content })
      | _ => node? .block fuel { tokens := content, handles := handles ++ commonHandles }
    return (node, reading.tokens)
  | _ =>
    if marked then none
    else
      let (node, reading) ← node? .block fuel { tokens, handles := commonHandles }
      return (node, reading.tokens)

/-- The tree of the only document of a stream. -/
def document? (text : Text) : Option Node := do
  let (node, tokens) ← nextDocument? (← tokens? text)
  guard (tokens.all (· == .documentEnd))
  return node

end Yaml

end Reindent
