import Reindent.Line.Basic
import Reindent.Registry
import Reindent.Relocation

/-!
# Reindent.Frame.Basic

Open contexts of a document, and what they remember of their children.

* `Anchor` — where an input column has gone; deeper columns move with it.
* `Entry`  — the last direct child of a scope, and for an item its own keys.
* `Scope`  — the children of a frame or of the document.
* `Frame`  — the context that a container key opens.

A frame stays open until a line at or left of its key. Items at the key's own column are the
exception: they are children of a frame that holds items.
-/

namespace Reindent

/-- An input column and the output column it was moved to. -/
structure Anchor where
  input : Nat
  output : Nat
  deriving DecidableEq, Repr

namespace Anchor

/-- The column `indent`, displaced as the anchor was. -/
def carry (anchor : Anchor) (indent : Nat) : Nat :=
  indent + anchor.output - anchor.input

end Anchor

structure Entry where
  input : Nat
  output : Nat
  item : Bool
  /-- The input column of the item's own keys: known from the payload after the dash, or else
  learned from the first key below it. -/
  keyLevel : Option Nat
  /-- The output column of the item's own keys. -/
  memberIndent : Nat
  /-- The last own key of the item; deeper lines move with it. -/
  member : Option Anchor
  /-- The item's own keys so far. -/
  keys : List Text
  /-- Attributes lifted out of the item's frames, to be written where the item ends. -/
  pending : List Relocation
  deriving DecidableEq, Repr

namespace Entry

/-- The child that `line` starts at the output column `output`. -/
def ofLine (line : Line) (output : Nat) : Entry :=
  let bare : Entry :=
    { input := line.indent, output, item := line.isItem, keyLevel := none,
      memberIndent := output + 2, member := none, keys := [], pending := [] }
  match line.payload? with
  | some (_ :: _) =>
    let level := line.indent + line.payloadOffset
    let memberIndent := output + line.payloadOffset
    { bare with
      keyLevel := some level
      memberIndent
      member := some ⟨level, memberIndent⟩
      keys := line.key.toList }
  | _ => bare

/-- The item sets `key`, or will when its relocations are written. -/
def hasKey (entry : Entry) (key : Text) : Bool :=
  entry.keys.contains key || Relocation.sets key entry.pending

end Entry

structure Scope where
  /-- The input column of the first direct child. -/
  childInput : Option Nat := none
  /-- The last direct child. -/
  entry : Option Entry := none
  deriving DecidableEq, Repr

namespace Scope

/-- The last direct child, if it is an item. -/
def item? (scope : Scope) : Option Entry :=
  scope.entry.filter Entry.item

/-- Hands relocations to the last direct child. -/
def append (scope : Scope) (relocations : List Relocation) : Scope :=
  { scope with
    entry := scope.entry.map fun entry =>
      { entry with pending := entry.pending ++ relocations } }

end Scope

structure Frame where
  role : Role
  key : Text
  /-- The input column of the key, or of its children where these stand left of it. -/
  inputIndent : Nat
  /-- The output column of the key. -/
  baseIndent : Nat
  /-- The arguments of a module, written at or left of its key. -/
  inlineArgs : Bool := false
  scope : Scope := {}
  /-- Attributes found inside that cannot belong to the frame. -/
  relocations : List Relocation := []
  deriving DecidableEq, Repr

namespace Frame

/-- The frame of a module whose arguments start at the input column `column`, no deeper than its
key. -/
def withInlineArgs (frame : Frame) (column : Nat) : Frame :=
  { frame with
    inlineArgs := true
    inputIndent := column
    scope := { frame.scope with childInput := some column } }

/-- The output column of direct children. -/
def childIndent (frame : Frame) : Nat :=
  frame.baseIndent + 2

/-- `line` ends the frame. -/
def closesAt (registry : Registry) (frame : Frame) (line : Line) : Bool :=
  if line.indent ≠ frame.inputIndent then line.indent < frame.inputIndent
  else if line.isItem then !frame.role.holdsItems
  else if frame.inlineArgs then line.key.all registry.endsModuleArgs
  else true

end Frame

end Reindent
