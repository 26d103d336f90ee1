import Reindent.Proofs.Frame.Displaced
import Reindent.Proofs.Pass.BlockText
import Reindent.Proofs.Pass.Core
import Reindent.Proofs.Pass.Counted

/-!
# Reindent.Proofs.Pass.Displaced

A pass over a document that stands elsewhere: below other lines, or with the lines inside one of the
open frames further to the right.

* `State.Displaced` — a state of such a pass, and the state of the pass over the document itself.
* `Displaced.closeFor` — a line ends the same frames.
* `Displaced.record`, `Displaced.writeAt`, `Displaced.liftOut` — what becomes of a line.
* `Displaced.verdict`  — the same attributes are lifted.

The columns of the input differ, and those of the output do not.
-/

namespace Reindent

/-- What two passes have done before they come to the same lines. -/
structure Ground where
  below : List OutLine := []
  below' : List OutLine := []
  /-- Relocations are written above blank lines and comments, so these must not be the last ones
  that were written before. -/
  solid : below.takeWhile OutLine.trivia = []
  solid' : below'.takeWhile OutLine.trivia = []
  /-- How many more lines the second pass has relocated. -/
  relocated : Nat := 0
  /-- How many more lines the second pass has reindented, if that is compared. -/
  reindented? : Option Nat := none

/-- The passes have written the same lines, and what they have reindented is not compared. -/
def Ground.level : Ground where
  solid := List.takeWhile_nil
  solid' := List.takeWhile_nil

namespace Pass

variable {move : Displacement} {ground : Ground} {registry : Registry} {state' : State}

theorem moved_renumber (down : Nat) (lines : List Relocation) :
    (lines.map (Relocation.renumber down)).map State.moved =
      (lines.map State.moved).map (OutLine.renumber down) := by
  rw [List.map_map, List.map_map]
  rfl

/-- The block scalar that is open, in the document that stands elsewhere. -/
def bodyElsewhere (move : Displacement) (body : ScalarBody) : ScalarBody :=
  ⟨body.opener + move.right, body.shift - move.right⟩

/-- The verdict about the innermost frame, in the document that stands elsewhere. -/
def Verdict.displace (move : Displacement) : Verdict → Verdict
  | .stays => .stays
  | .alreadySet key frame => .alreadySet key (move.frame frame)
  | .stranded key frame => .stranded key (move.frame frame)

namespace State

/-- `state'` is the state of a pass over the document that stands elsewhere, where `state` is that of
the pass over the document itself. Their logs are not compared. -/
structure Displaced (move : Displacement) (ground : Ground) (state state' : State) : Prop where
  stack : state'.stack = state.stack.map move.frame
  root : state'.root = state.root.displace 0 move.down
  orphans : state'.orphans = state.orphans.map (Relocation.renumber move.down)
  written : ∃ lines, state.written = lines ++ ground.below ∧
    state'.written = lines.map (OutLine.renumber move.down) ++ ground.below'
  body : state'.body = state.body.map (bodyElsewhere move)
  relocated : state'.tally.2 = state.tally.2 + ground.relocated
  /-- Other lines are reindented if they stand further to the right. -/
  reindented : ∀ count, ground.reindented? = some count →
    move.right = 0 ∧ state'.tally.1 = state.tally.1 + count

/-- The passes break off with the same fault, or go on. -/
inductive DisplacedResult (move : Displacement) (ground : Ground) :
    Except Failure State → Except Failure State → Prop
  | ok {state state' : State} : state.Displaced move ground state' →
      DisplacedResult move ground (.ok state) (.ok state')
  | error {failure failure' : Failure} : failure'.fault = failure.fault →
      DisplacedResult move ground (.error failure) (.error failure')

/-- Nothing is further to the right, or the innermost frame is that of the displacement or inside
it. -/
def Within (move : Displacement) (state : State) : Prop :=
  move.right = 0 ∨ ∃ frame, state.stack.head? = some frame ∧ move.base ≤ frame.baseIndent

/-- What the next line ends can be told in both documents alike: the frames outside that of the
displacement have their keys at or left of its key. -/
def Bounded (move : Displacement) (state : State) : Prop :=
  ∀ frame ∈ state.stack, move.right = 0 ∨ move.base ≤ frame.baseIndent ∨
    frame.inputIndent ≤ move.floor

variable {state state' : State}

namespace Displaced

/-! ### Moves between the buffers -/

theorem flush (h : state.Displaced move ground state') (waiting : List Relocation) :
    (state.flush waiting).Displaced move ground
      (state'.flush (waiting.map (Relocation.renumber move.down))) := by
  obtain ⟨lines, hlines, hlines'⟩ := h.written
  have htrivia : OutLine.trivia ∘ OutLine.renumber move.down = OutLine.trivia := rfl
  refine { h with written := ⟨lines.takeWhile OutLine.trivia ++ (waiting.map moved).reverse ++
    lines.dropWhile OutLine.trivia, ?_, ?_⟩ }
  · rw [State.flush, hlines, takeWhile_trivia_append ground.solid,
      dropWhile_trivia_append ground.solid]
    simp only [List.append_assoc]
  · rw [State.flush, hlines', takeWhile_trivia_append ground.solid',
      dropWhile_trivia_append ground.solid', moved_renumber]
    simp only [List.map_append, List.map_reverse, List.takeWhile_map, List.dropWhile_map, htrivia,
      List.append_assoc]

theorem log (h : state.Displaced move ground state') (event event' : Event) :
    (state.log event).Displaced move ground (state'.log event') :=
  { h with stack := h.stack }

/-- Frames end in both passes. -/
theorem tandem : Tandem move.rendering (Displaced move ground) where
  stack h := h.stack
  root h := h.root
  orphans h := h.orphans
  flush h waiting := h.flush waiting
  log h _ _ _ := h.log _ _
  update h _ _ _ := { h with stack := rfl, root := rfl, orphans := rfl }

end Displaced

theorem Bounded.closeTop (h : state.Bounded move) (atEnd : Bool) :
    (state.closeTop atEnd).Bounded move := by
  intro frame hframe
  have hcleared : frame.cleared ∈ state.stack.map Frame.cleared := by
    refine List.mem_of_mem_tail ?_
    rw [← map_cleared_closeTop state atEnd]
    exact List.mem_map_of_mem hframe
  obtain ⟨before, hbefore, hsame⟩ := List.mem_map.1 hcleared
  have hbase : before.cleared.baseIndent = frame.cleared.baseIndent := by rw [hsame]
  have hinput : before.cleared.inputIndent = frame.cleared.inputIndent := by rw [hsame]
  have hbounded := h before hbefore
  rw [show before.baseIndent = frame.baseIndent from hbase,
    show before.inputIndent = frame.inputIndent from hinput] at hbounded
  exact hbounded

namespace Displaced

theorem closeUpTo (h : state.Displaced move ground state') (hbounded : state.Bounded move)
    (line : Line) (count : Nat) :
    (State.closeUpTo registry line count state).Displaced move ground
      (State.closeUpTo registry (move.line line) count state') := by
  refine (State.closeUpTo_keeps_both
    (R := fun state state' => state.Displaced move ground state' ∧ state.Bounded move)
    (fun state state' h => ?_)
    (fun _ _ h => ⟨tandem.closeTop h.1 false, h.2.closeTop false⟩) count ⟨h, hbounded⟩).1
  rw [h.1.stack]
  cases hstack : state.stack with
  | nil => rfl
  | cons frame rest =>
    exact Displacement.closesAt_frame (h.2 frame (hstack ▸ List.mem_cons_self)) line

/-- A line ends the same frames. -/
theorem closeFor (h : state.Displaced move ground state') (hbounded : state.Bounded move)
    (line : Line) :
    (state.closeFor registry line).Displaced move ground
      (state'.closeFor registry (move.line line)) := by
  simp only [State.closeFor, h.stack, List.length_map]
  exact h.closeUpTo hbounded line _

end Displaced

/-! ### Placing and writing -/

theorem Within.frame (hwithin : state.Within move) {frame : Frame} {rest : Stack}
    (hstack : state.stack = frame :: rest) : move.right = 0 ∨ move.base ≤ frame.baseIndent := by
  rcases hwithin with hstill | ⟨top, htop, hbase⟩
  · exact .inl hstill
  · rw [hstack] at htop
    cases htop
    exact .inr hbase

theorem Within.right (hwithin : state.Within move) (hstack : state.stack = []) :
    move.right = 0 := by
  rcases hwithin with hstill | ⟨top, htop, _⟩
  · exact hstill
  · rw [hstack] at htop
    cases htop

/-- The line `input` where the document stands elsewhere. -/
def inputElsewhere (move : Displacement) (input : InputLine) : InputLine :=
  { input with number := input.number + move.down, line := input.line.displace move.right }

namespace Displaced

theorem place (h : state.Displaced move ground state') (hwithin : state.Within move)
    (line : Line) : state'.place (line.displace move.right) = state.place line := by
  cases hstack : state.stack with
  | nil =>
    have hstack' : state'.stack = [] := by rw [h.stack, hstack, List.map_nil]
    simp only [State.place, hstack, hstack', h.root, hwithin.right hstack, Line.displace_zero]
    exact placeAtRoot_displace _ _ _
  | cons frame rest =>
    have hstack' : state'.stack = move.frame frame :: rest.map move.frame := by
      rw [h.stack, hstack, List.map_cons]
    simp only [State.place, hstack, hstack',
      Displacement.frame_of_le (hwithin.frame hstack)]
    exact place_displaceBy _ _ _ _ _

theorem withScope (h : state.Displaced move ground state') (hwithin : state.Within move)
    (scope : Scope) :
    (state.withScope scope).Displaced move ground
      (state'.withScope (scope.displace move.right move.down)) := by
  cases hstack : state.stack with
  | nil =>
    have hstack' : state'.stack = [] := by rw [h.stack, hstack, List.map_nil]
    simp only [State.withScope, hstack, hstack', hwithin.right hstack]
    exact { h with stack := rfl, root := rfl }
  | cons frame rest =>
    have hstack' : state'.stack = move.frame frame :: rest.map move.frame := by
      rw [h.stack, hstack, List.map_cons]
    have hinner := hwithin.frame hstack
    have hframe := Displacement.frame_of_le hinner
    have hscope := @Displacement.frame_of_le move { frame with scope } hinner
    simp only [State.withScope, hstack, hstack']
    exact { h with stack := by rw [List.map_cons, hscope, hframe]; rfl }

theorem scope (h : state.Displaced move ground state') (hwithin : state.Within move) :
    state'.scope = state.scope.displace move.right move.down := by
  cases hstack : state.stack with
  | nil =>
    have hstack' : state'.stack = [] := by rw [h.stack, hstack, List.map_nil]
    simp only [State.scope, hstack, hstack', h.root, hwithin.right hstack]
  | cons frame rest =>
    have hstack' : state'.stack = move.frame frame :: rest.map move.frame := by
      rw [h.stack, hstack, List.map_cons]
    simp only [State.scope, hstack, hstack', Displacement.frame_of_le (hwithin.frame hstack)]
    rfl

theorem record (h : state.Displaced move ground state') (hwithin : state.Within move)
    (line : Line) (placement : Placement) :
    (state.record line placement).Displaced move ground
      (state'.record (line.displace move.right) placement) := by
  simp only [State.record, h.scope hwithin, Scope.record_displace]
  exact tandem.flushEntry (h.withScope hwithin _) (Option.map_map _ _ _)

/-- A line is written. -/
theorem cons (h : state.Displaced move ground state') {next next' : State} {out : OutLine}
    (hwritten : next.written = out :: state.written)
    (hwritten' : next'.written = out.renumber move.down :: state'.written)
    (hkeeps : next.stack = state.stack ∧ next.root = state.root ∧ next.orphans = state.orphans)
    (hkeeps' : next'.stack = state'.stack ∧ next'.root = state'.root ∧
      next'.orphans = state'.orphans)
    (hbody : next'.body = next.body.map (bodyElsewhere move))
    (hrelocated : next'.tally.2 = next.tally.2 + ground.relocated)
    (hreindented : ∀ count, ground.reindented? = some count →
      move.right = 0 ∧ next'.tally.1 = next.tally.1 + count) :
    next.Displaced move ground next' := by
  obtain ⟨lines, hlines, hlines'⟩ := h.written
  refine ⟨?_, ?_, ?_, ⟨out :: lines, ?_, ?_⟩, hbody, hrelocated, hreindented⟩
  · rw [hkeeps.1, hkeeps'.1, h.stack]
  · rw [hkeeps.2.1, hkeeps'.2.1, h.root]
  · rw [hkeeps.2.2, hkeeps'.2.2, h.orphans]
  · rw [hwritten, hlines, List.cons_append]
  · rw [hwritten', hlines', List.map_cons, List.cons_append]

theorem writeAt (h : state.Displaced move ground state') {input : InputLine}
    (hread : input.line.IsRead) (column : Nat) :
    (state.writeAt input column).Displaced move ground
      (state'.writeAt (inputElsewhere move input) column) := by
  have hread' : (inputElsewhere move input).line.IsRead := hread.displace move.right
  have hkeeps : ∀ (state : State) (input : InputLine),
      (state.writeAt input column).stack = state.stack ∧
        (state.writeAt input column).root = state.root ∧
        (state.writeAt input column).orphans = state.orphans ∧
        (state.writeAt input column).body = state.body := by
    intro state input
    simp only [State.writeAt]
    split <;> exact ⟨rfl, rfl, rfl, rfl⟩
  obtain ⟨hstack, hroot, horphans, hbody⟩ := hkeeps state input
  obtain ⟨hstack', hroot', horphans', hbody'⟩ := hkeeps state' (inputElsewhere move input)
  refine h.cons (written_writeAt state hread column) ?_ ⟨hstack, hroot, horphans⟩
    ⟨hstack', hroot', horphans'⟩ ?_ ?_ ?_
  · rw [written_writeAt state' hread' column]
    simp [inputElsewhere, OutLine.renumber]
  · rw [hbody, hbody', h.body]
  · rw [tally_writeAt, tally_writeAt]
    exact h.relocated
  · intro count hcount
    obtain ⟨hstill, hreindented⟩ := h.reindented count hcount
    have hindent : (inputElsewhere move input).line.indent = input.line.indent := by
      simp [inputElsewhere, hstill]
    rw [tally_writeAt, tally_writeAt, hindent]
    exact ⟨hstill, by omega⟩

theorem tally_writeBody (state : State) (input : InputLine) (shift : Int) :
    (state.writeBody input shift).tally =
      (state.tally.1 + if shift = 0 ∨ input.line.category = .blank then 0 else 1,
        state.tally.2) := by
  simp only [State.writeBody]
  split <;> rfl

/-- Text of a block scalar, in a block scalar that moves less the further it is to the right. -/
theorem writeBody (h : state.Displaced move ground state') {input input' : InputLine}
    (hread : input.line.IsRead) {body : ScalarBody}
    (hinput : if input.line.category = .blank then
        input' = { input with number := input.number + move.down }
      else input' = inputElsewhere move input) :
    (state.writeBody input body.shift).Displaced move ground
      (state'.writeBody input' (bodyElsewhere move body).shift) := by
  have hkeeps : ∀ (state : State) (input : InputLine) (shift : Int),
      (state.writeBody input shift).orphans = state.orphans := by
    intro state input shift
    simp only [State.writeBody]
    split <;> rfl
  have hread' : input'.line.IsRead := by
    split at hinput
    · rw [hinput]
      exact hread
    · rw [hinput]
      exact hread.displace move.right
  refine h.cons (written_writeBody state hread body.shift) ?_
    ⟨stack_writeBody _ _ _, root_writeBody _ _ _, hkeeps _ _ _⟩
    ⟨stack_writeBody _ _ _, root_writeBody _ _ _, hkeeps _ _ _⟩ ?_ ?_ ?_
  · have hshift : (input.line.indent : Int) + move.right + (bodyElsewhere move body).shift =
        input.line.indent + body.shift := by
      simp only [bodyElsewhere]
      omega
    rw [written_writeBody state' hread']
    split at hinput
    · rename_i hblank
      simp [hinput, hblank, OutLine.renumber]
    · rename_i hblank
      have hblank' : (input.line.displace move.right).category ≠ .blank := hblank
      have hindent : (input.line.displace move.right).indent = input.line.indent + move.right := rfl
      simp [hinput, hblank, hblank', hindent, inputElsewhere, hshift, OutLine.renumber]
  · rw [body_writeBody, body_writeBody, h.body]
  · rw [tally_writeBody, tally_writeBody]
    exact h.relocated
  · intro count hcount
    obtain ⟨hstill, hreindented⟩ := h.reindented count hcount
    have hcategory : input'.line.category = input.line.category := by
      split at hinput
      · rw [hinput]
      · rw [hinput]
        rfl
    have hshift : (bodyElsewhere move body).shift = body.shift := by
      simp [bodyElsewhere, hstill]
    rw [tally_writeBody, tally_writeBody, hcategory, hshift]
    exact ⟨hstill, by omega⟩

theorem passThrough (h : state.Displaced move ground state') {input : InputLine}
    (hread : input.line.IsRead) :
    (state.passThrough input).Displaced move ground
      (state'.passThrough { input with number := input.number + move.down }) := by
  have hread' : ({ input with number := input.number + move.down } : InputLine).line.IsRead := hread
  have hkeeps : ∀ (state : State) (input : InputLine),
      (state.passThrough input).orphans = state.orphans := by
    intro state input
    simp only [State.passThrough]
    split <;> rfl
  refine h.cons (written_passThrough state hread) ?_
    ⟨stack_passThrough _ _, root_passThrough _ _, hkeeps _ _⟩
    ⟨stack_passThrough _ _, root_passThrough _ _, hkeeps _ _⟩ ?_ ?_ ?_
  · rw [written_passThrough state' hread']
    rfl
  · rw [body_passThrough, body_passThrough, h.body]
  · rw [tally_passThrough, tally_passThrough]
    exact h.relocated
  · rw [tally_passThrough, tally_passThrough]
    exact h.reindented

/-! ### Attributes -/

/-- The item that lifted lines belong to sets the same keys. -/
theorem owner?_hasKey (h : state.Displaced move ground state') (key : Text) :
    (state'.owner?.any fun item => item.hasKey key) =
      state.owner?.any fun item => item.hasKey key := by
  obtain ⟨right, hinnermost⟩ := Stack.innermostItem?_displace move state.stack.tail
  have htail : state'.stack.tail = state.stack.tail.map move.frame := by
    rw [h.stack, List.map_tail]
  rw [State.owner?, State.owner?, Stack.ownerItem?, Stack.ownerItem?, htail, hinnermost, h.root,
    Scope.item?_displace]
  cases Stack.innermostItem? state.stack.tail with
  | some entry => exact entry.hasKey_displace key
  | none =>
    cases state.root.item? with
    | some entry => exact entry.hasKey_displace key
    | none => rfl

/-- A line below is deeper in both documents. -/
theorem deeper_iff {line : Line} (hline : move.right = 0 ∨ move.floor < line.indent) (next : Line) :
    (move.line next).indent > (line.displace move.right).indent ↔ next.indent > line.indent := by
  have hindent : (line.displace move.right).indent = line.indent + move.right := rfl
  rw [hindent, Displacement.line]
  split
  · omega
  · have hnext : (next.displace move.right).indent = next.indent + move.right := rfl
    omega

theorem verdict (h : state.Displaced move ground state') {line : Line}
    (hline : move.right = 0 ∨ move.floor < line.indent) (ahead : Option Line) :
    state'.verdict registry (line.displace move.right) (ahead.map move.line) =
      (state.verdict registry line ahead).displace move := by
  have hkey : (line.displace move.right).key = line.key := rfl
  have hinline : (line.displace move.right).isInlinePair = line.isInlinePair := rfl
  have hahead : ((ahead.map move.line).any fun next =>
      next.indent > (line.displace move.right).indent) =
        ahead.any fun next => next.indent > line.indent := by
    cases ahead with
    | none => rfl
    | some next => exact decide_eq_decide.2 (deeper_iff hline next)
  cases hstack : state.stack with
  | nil =>
    have hstack' : state'.stack = [] := by rw [h.stack, hstack, List.map_nil]
    simp only [State.verdict, hkey, hstack, hstack']
    cases line.key <;> rfl
  | cons frame rest =>
    have hstack' : state'.stack = move.frame frame :: rest.map move.frame := by
      rw [h.stack, hstack, List.map_cons]
    have hsets : ∀ key, Relocation.sets key (move.frame frame).relocations =
        Relocation.sets key frame.relocations :=
      fun key => Relocation.sets_renumber move.down key frame.relocations
    have hrole : (move.frame frame).role = frame.role := rfl
    have hframeKey : (move.frame frame).key = frame.key := rfl
    simp only [State.verdict, hkey, hstack, hstack', hinline, hahead, h.owner?_hasKey]
    cases line.key with
    | none => rfl
    | some key =>
      simp only [hsets, hrole, hframeKey]
      split
      · split <;> rfl
      · rfl

theorem liftOut (h : state.Displaced move ground state') (input : InputLine) (key : Text) :
    (state.liftOut input key).Displaced move ground
      (state'.liftOut (inputElsewhere move input) key) := by
  cases hstack : state.stack with
  | nil =>
    have hstack' : state'.stack = [] := by rw [h.stack, hstack, List.map_nil]
    simp only [State.liftOut, hstack, hstack']
    exact h
  | cons frame rest =>
    have hstack' : state'.stack = move.frame frame :: rest.map move.frame := by
      rw [h.stack, hstack, List.map_cons]
    have hcontent : (inputElsewhere move input).line.content = input.line.content :=
      Line.content_displace _ _
    have hrelocated : state'.stats.relocated = state.stats.relocated + ground.relocated :=
      h.relocated
    simp only [State.liftOut, hstack, hstack', hcontent]
    refine { h with stack := ?_, relocated := ?_ }
    · simp [Displacement.frame, Frame.displaceBy, Relocation.renumber, inputElsewhere]
    · simp only [tally]
      omega

/-! ### The same place -/

theorem refl (state : State) : state.Displaced {} .level state where
  stack := by
    have hframe : Displacement.frame {} = id :=
      funext fun frame => Displacement.frame_eq_self rfl (.inl rfl)
    rw [hframe, List.map_id]
  root := (Scope.displace_zero _).symm
  orphans := by rw [Relocation.renumber_zero, List.map_id]
  written := ⟨state.written, (List.append_nil _).symm, by
    rw [OutLine.renumber_zero, List.map_id]
    exact (List.append_nil _).symm⟩
  body := by cases state.body <;> simp [bodyElsewhere]
  relocated := rfl
  reindented _ hcount := by cases hcount

/-- The lines that are further to the right may be others, if that makes no difference for what is
open. -/
theorem congr_move {move move' : Displacement} {ground : Ground} {state state' : State}
    (h : state.Displaced move ground state') (hdown : move'.down = move.down)
    (hstack : ∀ frame ∈ state.stack, move'.frame frame = move.frame frame)
    (hbody : state.body = none) (hreindented : ground.reindented? = none) :
    state.Displaced move' ground state' := by
  obtain ⟨hstack', hroot, horphans, hwritten, hbody', hrelocated, _⟩ := h
  refine ⟨?_, ?_, ?_, ?_, ?_, hrelocated, ?_⟩
  · rw [hstack', List.map_congr_left hstack]
  · rw [hroot, hdown]
  · rw [horphans, hdown]
  · rw [hdown]
    exact hwritten
  · rw [hbody', hbody]
    rfl
  · rw [hreindented]
    intro _ hcount
    cases hcount

end Displaced
end State
end Pass
end Reindent
