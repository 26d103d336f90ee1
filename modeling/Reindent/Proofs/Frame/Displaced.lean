import Reindent.Proofs.Frame.Boundary
import Reindent.Proofs.Line.Displaced
import Reindent.Proofs.Pass.Tandem

/-!
# Reindent.Proofs.Frame.Displaced

Frames and their children in a document that stands elsewhere: below other lines, or with the lines
inside one of the frames further to the right.

* `Displacement` — where the document stands.
* `Displacement.frame`, `Displacement.line` — a frame and a line as they are there; output columns
  stay.
* `place_displaceBy` — a line gets the same place among the children of a frame.
* `closesAt_frame`   — it ends the same frames.
-/

namespace Reindent

/-- Where a document stands, compared with another one: how many lines there are above it, and how
much further to the right the lines inside a frame are. -/
structure Displacement where
  right : Nat := 0
  /-- The input column of the frame. -/
  floor : Nat := 0
  /-- The output column of the frame. -/
  base : Nat := 0
  down : Nat := 0

/-! ### Children -/

def Relocation.renumber (down : Nat) (r : Relocation) : Relocation :=
  { r with lineNumber := r.lineNumber + down }

def OutLine.renumber (down : Nat) (out : OutLine) : OutLine :=
  { out with number := out.number + down }

theorem Relocation.renumber_zero : renumber 0 = id := rfl

theorem OutLine.renumber_zero : renumber 0 = id := rfl

theorem Relocation.sets_renumber (down : Nat) (key : Text) (waiting : List Relocation) :
    sets key (waiting.map (renumber down)) = sets key waiting := by
  rw [sets, sets, List.any_map]
  rfl

namespace Anchor

def displace (right : Nat) (anchor : Anchor) : Anchor :=
  { anchor with input := anchor.input + right }

theorem displace_zero : displace 0 = id := rfl

theorem carry_displace (right : Nat) (anchor : Anchor) (i : Nat) :
    (anchor.displace right).carry (i + right) = anchor.carry i := by
  simp only [carry, displace]
  omega

end Anchor

namespace Entry

def displace (right down : Nat) (entry : Entry) : Entry :=
  { entry with
    input := entry.input + right
    keyLevel := entry.keyLevel.map (· + right)
    member := entry.member.map (Anchor.displace right)
    pending := entry.pending.map (Relocation.renumber down) }

variable {right down : Nat}

theorem hasKey_displace (entry : Entry) (key : Text) :
    (entry.displace right down).hasKey key = entry.hasKey key := by
  rw [hasKey, hasKey, displace, Relocation.sets_renumber]

theorem levelFor_displace (entry : Entry) (i : Nat) :
    (entry.displace right down).levelFor (i + right) = entry.levelFor i + right := by
  simp only [levelFor, displace]
  cases entry.keyLevel with
  | none =>
    simp only [Option.map_none, Option.getD_none]
    omega
  | some level => rfl

theorem anchorFor_displace (entry : Entry) (i : Nat) (isItem : Bool) :
    (entry.displace right down).anchorFor (i + right) isItem =
      (entry.anchorFor i isItem).displace right := by
  have hmember : (entry.displace right down).member =
      entry.member.map (Anchor.displace right) := rfl
  simp only [anchorFor, levelFor_displace, hmember]
  cases entry.member with
  | none => rfl
  | some last =>
    have hinput : (last.displace right).input = last.input + right := rfl
    have hsame : (i + right == last.input + right) = (i == last.input) := by
      rw [Bool.eq_iff_iff, beq_iff_eq, beq_iff_eq]
      omega
    simp only [Option.map_some, hinput, gt_iff_lt, Nat.add_lt_add_iff_right, hsame]
    split <;> rfl

theorem placeInside_displace (entry : Entry) (line : Line) :
    (entry.displace right down).placeInside (line.displace right) = entry.placeInside line := by
  have hindent : (line.displace right).indent = line.indent + right := rfl
  simp only [placeInside, hindent, levelFor_displace, anchorFor_displace, Anchor.carry_displace,
    Nat.add_le_add_iff_right]
  rfl

theorem addMember_displace (entry : Entry) (line : Line) (output : Nat) :
    (entry.displace right down).addMember (line.displace right) output =
      (entry.addMember line output).displace right down := by
  have hindent : (line.displace right).indent = line.indent + right := rfl
  simp only [addMember, hindent, levelFor_displace]
  rfl

theorem ofLine_displace (line : Line) (output : Nat) :
    ofLine (line.displace right) output = (ofLine line output).displace right down := by
  have hindent : (line.displace right).indent = line.indent + right := rfl
  simp only [ofLine, hindent, Line.payload?_displace, Line.payloadOffset_displace,
    Nat.add_right_comm line.indent right]
  split <;> rfl

end Entry

namespace Scope

def displace (right down : Nat) (scope : Scope) : Scope :=
  { childInput := scope.childInput.map (· + right)
    entry := scope.entry.map (Entry.displace right down) }

variable {right down : Nat}

theorem item?_displace (scope : Scope) :
    (scope.displace right down).item? = scope.item?.map (Entry.displace right down) := by
  cases h : scope.entry with
  | none => simp [displace, item?, h]
  | some entry =>
    simp only [displace, item?, h, Option.map_some, Option.filter]
    cases hitem : entry.item <;> simp [Entry.displace, hitem]

theorem displace_append (scope : Scope) (lines : List Relocation) :
    (scope.append lines).displace right down =
      (scope.displace right down).append (lines.map (Relocation.renumber down)) := by
  cases h : scope.entry <;> simp [displace, append, h, Entry.displace]

theorem record_displace (scope : Scope) (line : Line) (placement : Placement) :
    (scope.displace right down).record (line.displace right) placement =
      ((scope.record line placement).1.displace right down,
        (scope.record line placement).2.map (Entry.displace right down)) := by
  have hindent : (line.displace right).indent = line.indent + right := rfl
  cases placement with
  | entry indent =>
    simp only [record, displace, hindent, Option.map_some]
    rw [@Entry.ofLine_displace right down]
    cases scope.childInput <;> rfl
  | member indent =>
    cases h : scope.entry with
    | none => simp [record, displace, h]
    | some entry => simp [record, displace, h, Entry.addMember_displace]
  | carried indent => rfl
  | unchanged => rfl

theorem displace_empty : displace right down {} = {} := rfl

end Scope

/-! ### Frames -/

namespace Frame

/-- The frame with its children further to the right, and with its key there if that is deeper than
`floor`. -/
def displaceBy (right floor down : Nat) (frame : Frame) : Frame :=
  { frame with
    inputIndent :=
      if frame.inputIndent ≤ floor then frame.inputIndent else frame.inputIndent + right
    scope := frame.scope.displace right down
    relocations := frame.relocations.map (Relocation.renumber down) }

variable {right floor down : Nat}

theorem anchorFor_displaceBy (frame : Frame) (i level : Nat) :
    (frame.displaceBy right floor down).anchorFor (i + right) (level + right) =
      (frame.anchorFor i level).displace right := by
  cases h : frame.scope.entry with
  | none => simp [anchorFor, displaceBy, Scope.displace, h, Anchor.displace, childIndent]
  | some entry =>
    simp only [anchorFor, displaceBy, Scope.displace, h, Option.map_some, Entry.displace, gt_iff_lt,
      Nat.add_lt_add_iff_right]
    split <;> rfl

theorem displaceBy_withInlineArgs (frame : Frame) {column : Nat}
    (hcolumn : right = 0 ∨ floor < column) :
    (frame.withInlineArgs column).displaceBy right floor down =
      (frame.displaceBy right floor down).withInlineArgs (column + right) := by
  have hinput : (if column ≤ floor then column else column + right) = column + right := by
    split <;> omega
  simp only [withInlineArgs, displaceBy, Scope.displace, Option.map_some, Frame.mk.injEq, true_and,
    and_true]
  exact hinput

end Frame

theorem place_displaceBy (right floor down : Nat) (frame : Frame) (line : Line) :
    place (frame.displaceBy right floor down) (line.displace right) = place frame line := by
  have hindent : (line.displace right).indent = line.indent + right := rfl
  have hitem : (line.displace right).isItem = line.isItem := rfl
  have hrole : (frame.displaceBy right floor down).role = frame.role := rfl
  have hchild : (frame.displaceBy right floor down).childIndent = frame.childIndent := rfl
  have hinput : (frame.displaceBy right floor down).scope.childInput =
      frame.scope.childInput.map (· + right) := rfl
  have hscope : (frame.displaceBy right floor down).scope.item? =
      frame.scope.item?.map (Entry.displace right down) := Scope.item?_displace _
  have hfirst : (frame.scope.childInput.map (· + right) == some (line.indent + right)) =
      (frame.scope.childInput == some line.indent) := by
    cases frame.scope.childInput <;> simp
  have hlevel : (frame.scope.childInput.map (· + right)).getD (line.indent + right) =
      frame.scope.childInput.getD line.indent + right := by
    cases frame.scope.childInput <;> rfl
  have hentry : ∀ entry : Entry, (entry.displace right down).input = entry.input + right :=
    fun _ => rfl
  simp only [place, hindent, hitem, hrole, hchild, hscope, hinput, hfirst, hlevel,
    Frame.anchorFor_displaceBy, Anchor.carry_displace, Nat.add_le_add_iff_right]
  cases frame.scope.item? with
  | none => rfl
  | some entry =>
    simp only [Option.map_some, hentry, Nat.add_le_add_iff_right, gt_iff_lt,
      Nat.add_lt_add_iff_right, Entry.anchorFor_displace, Anchor.carry_displace,
      Entry.placeInside_displace]

/-- Where no frame is open nothing moves. -/
theorem placeAtRoot_displace (down : Nat) (scope : Scope) (line : Line) :
    placeAtRoot (scope.displace 0 down) line = placeAtRoot scope line := by
  cases h : scope.entry with
  | none => simp [placeAtRoot, Scope.displace, h]
  | some entry =>
    have hlevel : (entry.displace 0 down).levelFor line.indent = entry.levelFor line.indent :=
      entry.levelFor_displace line.indent
    simp only [placeAtRoot, Scope.displace, h, Option.map_some, hlevel]
    rfl

/-! ### Frames in the document that stands elsewhere -/

namespace Displacement

variable {registry : Registry} (move : Displacement)

/-- The frame in the other document. The lines inside it are further to the right if it is the frame
of the displacement, or inside that. -/
def frame (frame : Frame) : Frame :=
  frame.displaceBy (if move.base ≤ frame.baseIndent then move.right else 0) move.floor move.down

/-- The line in the other document, further to the right if it is inside the frame. -/
def line (line : Line) : Line :=
  if line.indent ≤ move.floor then line else line.displace move.right

variable {move}

theorem frame_of_le {frame : Frame} (h : move.right = 0 ∨ move.base ≤ frame.baseIndent) :
    move.frame frame = frame.displaceBy move.right move.floor move.down := by
  rcases h with hstill | hinner
  · rw [Displacement.frame, hstill, ite_self]
  · rw [Displacement.frame, if_pos hinner]

theorem line_eq_displace {line : Line} (h : move.right = 0 ∨ move.floor < line.indent) :
    move.line line = line.displace move.right := by
  rcases h with hstill | hdeeper
  · rw [Displacement.line, hstill, Line.displace_zero, ite_self]
  · rw [Displacement.line, if_neg (Nat.not_le.2 hdeeper)]

theorem indent_line {line : Line} (h : move.right = 0 ∨ move.floor < line.indent) :
    (move.line line).indent = line.indent + move.right := by
  rw [line_eq_displace h]
  rfl

theorem line_of_le {line : Line} (h : line.indent ≤ move.floor) : move.line line = line := by
  rw [Displacement.line, if_pos h]

@[simp] theorem isItem_line (line : Line) : (move.line line).isItem = line.isItem := by
  rw [Displacement.line]
  split <;> rfl

@[simp] theorem key_line (line : Line) : (move.line line).key = line.key := by
  rw [Displacement.line]
  split <;> rfl

/-- A line ends the same frames, if those outside the frame of the displacement have their keys at
or left of its key. -/
theorem closesAt_frame {frame : Frame}
    (houter : move.right = 0 ∨ move.base ≤ frame.baseIndent ∨ frame.inputIndent ≤ move.floor)
    (line : Line) :
    (move.frame frame).closesAt registry (move.line line) = frame.closesAt registry line := by
  have hindent : (move.line line).indent =
      if line.indent ≤ move.floor then line.indent else line.indent + move.right := by
    rw [Displacement.line]
    split <;> rfl
  have hcolumns :
      ((move.line line).indent ≠ (move.frame frame).inputIndent ↔
        line.indent ≠ frame.inputIndent) ∧
      ((move.line line).indent < (move.frame frame).inputIndent ↔
        line.indent < frame.inputIndent) := by
    rw [hindent, Displacement.frame, Frame.displaceBy]
    dsimp only
    rcases houter with hstill | hinner | houter
    · rw [hstill, ite_self]
      split <;> split <;> omega
    · rw [if_pos hinner]
      split <;> split <;> omega
    · rw [if_pos houter]
      split <;> omega
  simp only [Frame.closesAt, hcolumns, isItem_line, key_line]
  rfl

/-- What ends a frame finds the same items and waiting lines there. -/
def rendering (move : Displacement) : Rendering where
  frame := move.frame
  root := Scope.displace 0 move.down
  line := Relocation.renumber move.down
  key _ := rfl
  baseIndent _ := rfl
  relocations _ := rfl
  pending _ := Option.map_map _ _ _
  isItem f := by
    rw [Displacement.frame, Frame.displaceBy, Scope.item?_displace, Option.isSome_map]
  append f lines := by
    simp only [Displacement.frame, Frame.displaceBy, Scope.displace_append]
  rootPending _ := Option.map_map _ _ _
  rootIsItem scope := by rw [Scope.item?_displace, Option.isSome_map]
  rootAppend scope lines := Scope.displace_append scope lines
  rootEnded _ := rfl

end Displacement

namespace Stack

variable (move : Displacement)

/-- The innermost item sets the same keys. -/
theorem innermostItem?_displace (stack : Stack) :
    ∃ right, innermostItem? (stack.map move.frame) =
      (innermostItem? stack).map (Entry.displace right move.down) := by
  induction stack with
  | nil => exact ⟨0, rfl⟩
  | cons frame rest ih =>
    have hitem : (move.frame frame).scope.item? = frame.scope.item?.map (Entry.displace
        (if move.base ≤ frame.baseIndent then move.right else 0) move.down) :=
      Scope.item?_displace _
    simp only [innermostItem?, List.map_cons, List.findSome?_cons, hitem] at ih ⊢
    cases frame.scope.item? with
    | none => exact ih
    | some entry => exact ⟨_, rfl⟩

end Stack

/-! ### The same place -/

theorem Scope.displace_zero (scope : Scope) : scope.displace 0 0 = scope := by
  obtain ⟨childInput, entry⟩ := scope
  have hentry : Entry.displace 0 0 = id := by
    funext entry
    obtain ⟨_, _, _, _, _, member, _⟩ := entry
    simp [Entry.displace, Anchor.displace_zero, Relocation.renumber_zero]
  simp [displace, hentry]

/-- A frame stays as it is if nothing in it is further to the right. -/
theorem Displacement.frame_eq_self {move : Displacement} {frame : Frame} (hdown : move.down = 0)
    (h : move.right = 0 ∨ frame.baseIndent < move.base) : move.frame frame = frame := by
  have hright : (if move.base ≤ frame.baseIndent then move.right else 0) = 0 := by
    split <;> omega
  simp [Displacement.frame, Frame.displaceBy, hright, hdown, Scope.displace_zero,
    Relocation.renumber_zero]

end Reindent
