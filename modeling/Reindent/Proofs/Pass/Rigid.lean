import Reindent.Proofs.Pass.Boundary
import Reindent.Proofs.Pass.Nesting

/-!
# Reindent.Proofs.Pass.Rigid

Deeper content moves as its ancestor does.

* `Frame.ancestor?`  — what a line that is deeper than the children of a frame belongs to.
* `Sound.movesWith`  — such a line keeps its distance from it.
* `forall_stack_of_reaches` — what holds of every frame in every state of a pass.
* `carried_with_ancestor` — in all these states, lines are carried by as much as their ancestor.
-/

namespace Reindent
namespace Frame

/-- What a line at the column `i` inside the frame belongs to, if it is no child itself: the last
own key of the item that is the last child; or else the last child, if the line is deeper, or the
column of the children. -/
def ancestor? (frame : Frame) (i : Nat) : Option Anchor :=
  match frame.scope.item? with
  | some item => item.member
  | none =>
    match frame.scope.entry.filter fun child => child.input < i with
    | some child => some ⟨child.input, child.output⟩
    | none => frame.scope.childInput.map fun column => ⟨column, frame.childIndent⟩

/-- A line that is deeper than the anchor goes from the column `i` to `column`, and keeps its
distance from the anchor. -/
structure MovesWith (anchor : Anchor) (i column : Nat) : Prop where
  deeper : anchor.input < i
  displaced : (column : Int) - i = (anchor.output : Int) - anchor.input
  inside : anchor.output < column

variable {bare : Prop} {frame : Frame} {line : Line} {column i : Nat}

theorem movesWith_carry {anchor : Anchor} (h : anchor.input < i) :
    MovesWith anchor i (anchor.carry i) := by
  refine ⟨h, ?_, ?_⟩ <;> rw [Anchor.carry] <;> omega

theorem ancestor?_of_no_item (hitem : frame.scope.item? = none)
    (hchild : frame.scope.childInput = some column) :
    frame.ancestor? i = some (frame.anchorFor i column) := by
  simp only [ancestor?, hitem, anchorFor, gt_iff_lt]
  cases hentry : frame.scope.entry with
  | none => rw [Option.filter_none, hchild, Option.map_some]
  | some child =>
    by_cases hdeeper : child.input < i
    · simp [Option.filter, hdeeper]
    · simp [Option.filter, hdeeper, hchild]

theorem input_anchorFor_lt (hdeep : column < i) : (frame.anchorFor i column).input < i := by
  rw [anchorFor]
  split
  · split
    · assumption
    · exact hdeep
  · exact hdeep

theorem Sound.movesWith (h : frame.Sound bare) (hitem : line.isItem = false)
    (hplace : place frame line = .carried column) :
    ∃ anchor, frame.ancestor? line.indent = some anchor ∧
      MovesWith anchor line.indent column := by
  have hplaces := places_place frame line
  rw [hplace] at hplaces
  cases hplaces with
  | nestedItem htakes _ _ _ =>
    rw [takesItem, hitem, Bool.false_and] at htakes
    cases htakes
  | @deep entry _ hentry _ hdeep =>
    obtain ⟨last, hlast, hbelow, hanchor⟩ :=
      exists_member_of_deep (h entry (entry_of_item? hentry).1).2 hdeep
    refine ⟨last, ?_, ?_⟩
    · simp only [ancestor?, hentry, hlast]
    · rw [hanchor]
      exact movesWith_carry hbelow
  | @below level _ hnone hchild hdeep =>
    exact ⟨_, ancestor?_of_no_item hnone hchild, movesWith_carry (input_anchorFor_lt hdeep)⟩

end Frame

namespace Pass

variable {registry : Registry} {text : Text} {state : State}

/-! ### Every state of a pass -/

/-- What holds of every open frame in every state that a pass goes through. -/
theorem forall_stack_of_reaches {P : Frame → Prop} (hstable : Frame.Stable P)
    (hempty : ∀ frame : Frame, frame.scope.entry = none → P frame)
    (hrecorded : ∀ frame line, P frame → P (frame.recorded line))
    (h : Reaches registry text state) : ∀ frame ∈ state.stack, P frame := by
  have hstart : ∀ frame ∈ ({} : State).stack, P frame :=
    fun frame hframe => absurd hframe List.not_mem_nil
  have htrail : ∀ visit ∈ trailOf registry text, ∀ frame ∈ visit.state.stack, P frame :=
    fun visit hvisit => forall_stack_of_mem_trail hstable hempty
      (fun input _ frame => hrecorded frame input.line) hstart hvisit
  cases h with
  | line hvisit => exact htrail _ hvisit
  | @closing visit count hvisit _ =>
    have houtside : ∀ frame ∈ ({ visit.state with body := none } : State).stack, P frame :=
      htrail visit hvisit
    exact State.forall_stack_closeUpTo hstable houtside registry _ count
  | recorded hvisit _ =>
    exact State.forall_stack_record (Visit.forall_stack_ready hstable (htrail _ hvisit))
      fun frame => hrecorded frame _
  | unwinding count hsteps =>
    refine State.forall_stack_closeAtEnd hstable ?_ count
    exact forall_stack_steps hstable hempty (fun input _ frame => hrecorded frame input.line) hstart
      hsteps

/-- In every state of a pass, a line that is no item and that a frame would carry is deeper than
what it belongs to, and moves by exactly as much. -/
theorem carried_with_ancestor (hreach : Reaches registry text state) {frame : Frame}
    (hframe : frame ∈ state.stack) {line : Line} (hitem : line.isItem = false) {column : Nat}
    (hplace : place frame line = .carried column) :
    ∃ anchor, frame.ancestor? line.indent = some anchor ∧
      Frame.MovesWith anchor line.indent column := by
  have hsound : frame.Sound True :=
    forall_stack_of_reaches (Frame.stable_sound True) (fun _ => Frame.sound_of_entry)
      (fun _ _ h => h.recorded fun _ => trivial) hreach frame hframe
  exact hsound.movesWith hitem hplace

/-- A task with a variable. -/
def taskWithVariable : Text :=
  "tasks:\n- name: a\n  vars:\n    x: y\n".toList

theorem carried_with_ancestor_taskWithVariable :
    ∃ (state : State) (frame : Frame) (line : Line), Reaches .standard taskWithVariable state ∧
      frame ∈ state.stack ∧ line.isItem = false ∧ line.indent = 4 ∧
      place frame line = .carried 6 ∧ frame.ancestor? 4 = some ⟨2, 4⟩ ∧
      Frame.MovesWith ⟨2, 4⟩ 4 6 := by
  have hfacts : (trailOf .standard taskWithVariable).any (fun visit =>
      visit.input.line.isItem == false && visit.input.line.indent == 4 &&
        visit.state.stack.head?.any fun frame =>
          place frame visit.input.line == .carried 6 && frame.ancestor? 4 == some ⟨2, 4⟩) =
      true := by decide +kernel
  obtain ⟨visit, hvisit, hfacts⟩ := List.any_eq_true.1 hfacts
  simp only [Bool.and_eq_true, beq_iff_eq, Option.any_eq_true] at hfacts
  obtain ⟨⟨hitem, hindent⟩, frame, hframe, hplace, hancestor⟩ := hfacts
  have hmem : frame ∈ visit.state.stack := List.mem_of_mem_head? hframe
  obtain ⟨anchor, hanchor, hmoves⟩ :=
    @carried_with_ancestor .standard taskWithVariable visit.state (.line hvisit) frame hmem _ hitem
      6 hplace
  rw [hindent] at hanchor hmoves
  obtain rfl : anchor = ⟨2, 4⟩ := Option.some.inj (hanchor.symm.trans hancestor)
  exact ⟨visit.state, frame, visit.input.line, .line hvisit, hmem, hitem, hindent, hplace,
    hancestor, hmoves⟩

end Pass
end Reindent
