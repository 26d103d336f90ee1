import Reindent.Frame.Basic

/-!
# Reindent.Placement

Where a line belongs among the children of the innermost context.

* `Placement`   — the kinds of place, each with its output column.
* `place`       — the place of a line inside a frame.
* `placeAtRoot` — the place of a line when no frame is open; nothing moves there.
* `Scope.record` — the children after a line has been placed.

Placing reads the scope and never changes it.
-/

namespace Reindent

inductive Placement where
  /-- A new direct child. -/
  | entry (indent : Nat)
  /-- An own key of the current item. -/
  | member (indent : Nat)
  /-- Deeper content, which moves with what it belongs to. -/
  | carried (indent : Nat)
  /-- Undecidable; the line stays where it is. -/
  | unchanged
  deriving DecidableEq, Repr

namespace Placement

/-- The output column of `line` in this place. -/
def indent (placement : Placement) (line : Line) : Nat :=
  match placement with
  | entry indent | member indent | carried indent => indent
  | unchanged => line.indent

def isMember : Placement → Bool
  | member _ => true
  | _ => false

end Placement

namespace Entry

/-- The input column of the item's own keys. Below a bare dash it is learned from the column
`i` of the first key, and lies at least two columns right of the dash. -/
def levelFor (entry : Entry) (i : Nat) : Nat :=
  entry.keyLevel.getD (max i (entry.input + 2))

/-- What a line at column `i` inside the item moves with: the last own key if the line is deeper,
or else the column of the own keys. Sequence items can sit at their key's own column. -/
def anchorFor (entry : Entry) (i : Nat) (isItem : Bool) : Anchor :=
  let level : Anchor := ⟨entry.levelFor i, entry.memberIndent⟩
  match entry.member with
  | some last => if i > last.input || (isItem && i == last.input) then last else level
  | none => level

/-- The place of a line that is not an item among the contents of an item. -/
def placeInside (entry : Entry) (line : Line) : Placement :=
  if line.indent ≤ entry.levelFor line.indent then .member entry.memberIndent
  else .carried ((entry.anchorFor line.indent false).carry line.indent)

/-- Records an own key of the item, written at the output column `output`. -/
def addMember (entry : Entry) (line : Line) (output : Nat) : Entry :=
  { entry with
    keyLevel := some (entry.levelFor line.indent)
    member := some ⟨line.indent, output⟩
    keys :=
      match line.key with
      | some key => if entry.keys.contains key then entry.keys else entry.keys ++ [key]
      | none => entry.keys }

end Entry

/-- What a line that is deeper than the first child moves with, in a frame without items. -/
def Frame.anchorFor (frame : Frame) (i level : Nat) : Anchor :=
  match frame.scope.entry with
  | some entry =>
    if i > entry.input then ⟨entry.input, entry.output⟩ else ⟨level, frame.childIndent⟩
  | none => ⟨level, frame.childIndent⟩

/-- The place of `line` inside `frame`. -/
def place (frame : Frame) (line : Line) : Placement :=
  let i := line.indent
  if line.isItem && frame.role.holdsItems then
    match frame.scope.item? with
    | none => .entry frame.childIndent
    | some entry =>
      if i ≤ entry.input || frame.scope.childInput == some i then .entry frame.childIndent
      else .carried ((entry.anchorFor i true).carry i)
  else
    match frame.scope.item? with
    | some entry =>
      -- A key left of a task's dash is still the task's; in a plain list it is ambiguous.
      if frame.role.holdsTasks || i > entry.input then entry.placeInside line else .unchanged
    | none =>
      let level := frame.scope.childInput.getD i
      if i ≤ level then .entry frame.childIndent
      else .carried ((frame.anchorFor i level).carry i)

/-- The place of `line` when no frame is open. Columns stay; the place only tells which lines
belong to an item. -/
def placeAtRoot (scope : Scope) (line : Line) : Placement :=
  let i := line.indent
  match scope.entry with
  | some entry =>
    if i > entry.input then
      if entry.item && !line.isItem && i ≤ entry.levelFor i then .member i else .carried i
    else .entry i
  | none => .entry i

/-- The children after `line` was placed, and the child that it replaced: if that was an item, it
has ended. -/
def Scope.record (scope : Scope) (line : Line) (placement : Placement) : Scope × Option Entry :=
  match placement with
  | .entry indent =>
    ({ childInput := some (scope.childInput.getD line.indent)
       entry := some (Entry.ofLine line indent) },
      scope.entry)
  | .member indent =>
    ({ scope with entry := scope.entry.map fun entry => entry.addMember line indent }, none)
  | .carried _ | .unchanged => (scope, none)

end Reindent
