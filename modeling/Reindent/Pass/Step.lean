import Reindent.Pass.State

/-!
# Reindent.Pass.Step

One line of a pass.

* `State.verdict`    — whether a line is an attribute that the innermost frame cannot own.
* `State.opening?`   — the frame that a line opens.
* `State.structural` — a line that takes part in the structure.
* `State.step`       — any line.

A structural line looks ahead to the next structural line and no further.
-/

namespace Reindent

/-- The input and the output column of the key that `line`, written at the column `indent`,
leaves open. -/
def Line.openKeyColumns? (line : Line) (indent : Nat) : Option (Nat × Nat) :=
  if line.itemOpensKey then some (line.indent + line.payloadOffset, indent + line.payloadOffset)
  else if line.category == .key then some (line.indent, indent)
  else none

namespace Pass

/-- What becomes of a line in the innermost frame. -/
inductive Verdict where
  | stays
  /-- The line stays because its task sets the key already. -/
  | alreadySet (key : Text) (frame : Frame)
  /-- The line is lifted out. -/
  | stranded (key : Text) (frame : Frame)
  deriving DecidableEq, Repr

namespace State

/-- Judges a line that does not end the innermost frame. An attribute with a deeper line below it
has a nested value and stays. -/
def verdict (state : State) (registry : Registry) (line : Line) (ahead : Option Line) : Verdict :=
  match line.key, state.stack with
  | some key, frame :: _ =>
    if line.isInlinePair && registry.isStranded key frame.role frame.key &&
        !ahead.any fun next => next.indent > line.indent then
      if Relocation.sets key frame.relocations || state.owner?.any fun item => item.hasKey key then
        .alreadySet key frame
      else .stranded key frame
    else .stays
  | _, _ => .stays

/-- Lifts a line, which sets `key`, out of the innermost frame. -/
def liftOut (state : State) (input : InputLine) (key : Text) : State :=
  match state.stack with
  | [] => state
  | frame :: rest =>
    let lifted : Relocation :=
      { key, content := input.line.content, ending := input.ending, indent := frame.baseIndent,
        origin := frame.key, lineNumber := input.number }
    { state with
      stack := { frame with relocations := frame.relocations ++ [lifted] } :: rest
      buffered := state.buffered + 1
      stats := { state.stats with relocated := state.stats.relocated + 1 } }

/-! ### Frames that a line opens -/

/-- The place that `next` would get from the frames that are open now; `none` if it ends the
innermost one. -/
def predict? (state : State) (registry : Registry) (next : Line) : Option Placement :=
  if state.stack.head?.any fun frame => frame.closesAt registry next then none
  else some (state.place next)

/-- `next` is an item that stands at the key's input column, or would be written at its output
column. Either way it reads as the key's list. -/
def listsUnder (state : State) (registry : Registry) (column base : Nat) (next : Line) : Bool :=
  next.isItem && (next.indent == column || state.predict? registry next == some (.entry base))

/-- `next` is a module argument at or left of the module's key, where a key of its task would
stand. -/
def continuesInlineArgs (state : State) (registry : Registry) (column : Nat) (next : Line) : Bool :=
  !next.isItem && next.indent ≤ column && next.key.any (fun key => !registry.endsModuleArgs key) &&
    (state.predict? registry next).any Placement.isMember

/-- The frame of the key at the columns `column` and `base`: that of its role, or a list for a key
without a role that has items below it. -/
def frameFor? (state : State) (registry : Registry) (key : Text) (column base : Nat)
    (ahead : Option Line) : Option Frame :=
  match registry.roleOf? key with
  | some role => some { role, key, inputIndent := column, baseIndent := base }
  | none =>
    (ahead.filter (state.listsUnder registry column base)).map fun next =>
      { role := .listValue, key, inputIndent := min column next.indent, baseIndent := base }

/-- The frame that `line` opens, once it has been placed and written at the column `indent`. -/
def opening? (state : State) (registry : Registry) (line : Line) (placement : Placement)
    (indent : Nat) (ahead : Option Line) : Option Frame := do
  guard !(state.stack.head?.any fun frame => frame.role.isLeaf)
  let key ← line.key
  let (column, base) ← line.openKeyColumns? indent
  let frame ← state.frameFor? registry key column base ahead
  if frame.role == .moduleArgs && placement.isMember then
    match ahead.filter (state.continuesInlineArgs registry column) with
    | some next => return frame.withInlineArgs next.indent
    | none => return frame
  else return frame

/-- Opens `frame`. -/
def openFrame (state : State) (frame : Frame) : Except Failure State :=
  let state := state.log (.opened frame.role frame.key frame.baseIndent frame.inputIndent)
  match state.stack.push frame with
  | .ok stack => .ok { state with stack }
  | .error fault => state.fail fault

/-! ### Lines -/

/-- Records `line` among the children of the innermost context. An item that it follows has
ended. -/
def record (state : State) (line : Line) (placement : Placement) : State :=
  let (scope, ended) := state.scope.record line placement
  (state.withScope scope).flushEntry ended

/-- Places and writes a line that stays, and opens its frame. -/
def settle (state : State) (registry : Registry) (input : InputLine) (ahead : Option Line) :
    Except Failure State :=
  let line := input.line
  let placement := state.place line
  let indent := placement.indent line
  let state := (state.record line placement).writeAt input indent
  let state :=
    { state with body := if line.blockScalar then some ⟨line.indent, (indent : Int) - line.indent⟩
      else none }
  match state.opening? registry line placement indent ahead with
  | some frame => state.openFrame frame
  | none => .ok state

/-- A line that takes part in the structure. -/
def structural (state : State) (registry : Registry) (input : InputLine) (ahead : Option Line) :
    Except Failure State :=
  let state := state.closeFor registry input.line
  match state.verdict registry input.line ahead with
  | .stays => state.settle registry input ahead
  | .alreadySet key frame =>
    (state.log (.alreadySet input.number key frame.key)).settle registry input ahead
  | .stranded key frame =>
    .ok ((state.log (.stranded input.number key frame.role frame.key)).liftOut input key)

/-- A line without a part in the structure. -/
def passThrough (state : State) (input : InputLine) : State :=
  let state :=
    if input.line.category = .malformed then
      { state.log (.tabIndentation input.number) with
        stats := { state.stats with malformed := state.stats.malformed ++ [input.number] } }
    else state
  state.writeVerbatim input

/-- `line` is text of the block scalar that is open: blank, or deeper than the opener. -/
def continuesBody (line : Line) (body : ScalarBody) : Bool :=
  line.category == .blank || line.indent > body.opener

/-- The line `input`, with `rest` below it. -/
def step (state : State) (registry : Registry) (input : InputLine) (rest : List InputLine) :
    Except Failure State :=
  match state.body.filter (continuesBody input.line) with
  | some body => .ok (state.writeBody input body.shift)
  | none =>
    let state := { state with body := none }
    if input.line.isStructural then
      state.structural registry input (InputLine.nextStructural? rest)
    else .ok (state.passThrough input)

end State

end Pass

end Reindent
