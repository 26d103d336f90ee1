import Reindent.Proofs.Pass.Agenda
import Reindent.Proofs.Pass.Core

/-!
# Reindent.Proofs.Pass.Closing

How what waits is written when everything ends.

* `insertAbove`           — the lines of the output, with others above the blank lines and comments
  at their end.
* `insertAbove_unwind`    — at the end of the document, what waits is written in the order of the
  frames.
* `insertAbove_closeFor` — at a line that ends frames, in the order of the agenda.
* `State.Regroups`        — how far the two orders differ.
-/

namespace Reindent
namespace Pass

/-- The lines, newest first, with others written above the blank lines and comments at their end. -/
def insertAbove (written lines : List OutLine) : List OutLine :=
  written.takeWhile OutLine.trivia ++ (lines.reverse ++ written.dropWhile OutLine.trivia)

@[simp] theorem insertAbove_nil (written : List OutLine) : insertAbove written [] = written :=
  List.takeWhile_append_dropWhile

/-- What is written later stands below. -/
theorem insertAbove_insertAbove (written lines' : List OutLine) (waiting : List Relocation) :
    insertAbove (insertAbove written (waiting.map State.moved)) lines' =
      insertAbove written (waiting.map State.moved ++ lines') := by
  have hsolid : ((waiting.map State.moved).reverse ++
      written.dropWhile OutLine.trivia).takeWhile OutLine.trivia = [] := by
    rw [← List.map_reverse]
    cases waiting.reverse with
    | nil =>
      rw [List.map_nil, List.nil_append, List.takeWhile_eq_nil_iff]
      exact fun hpos => by simpa using List.dropWhile_get_zero_not OutLine.trivia written hpos
    | cons r rest => rfl
  have htake : (insertAbove written (waiting.map State.moved)).takeWhile OutLine.trivia =
      written.takeWhile OutLine.trivia := by
    rw [insertAbove, State.takeWhile_trivia_append hsolid, List.takeWhile_takeWhile]
    simp
  have hdrop : (insertAbove written (waiting.map State.moved)).dropWhile OutLine.trivia =
      (waiting.map State.moved).reverse ++ written.dropWhile OutLine.trivia := by
    have hsplit : (insertAbove written (waiting.map State.moved)).takeWhile OutLine.trivia ++
        (insertAbove written (waiting.map State.moved)).dropWhile OutLine.trivia =
          insertAbove written (waiting.map State.moved) := List.takeWhile_append_dropWhile
    rw [htake] at hsplit
    exact List.append_cancel_left hsplit
  rw [insertAbove, htake, hdrop, insertAbove, List.reverse_append, List.append_assoc]

namespace State

variable {registry : Registry} {state : State}

theorem insertAbove_flush (state : State) (waiting : List Relocation) :
    (state.flush waiting).written = insertAbove state.written (waiting.map moved) :=
  List.append_assoc _ _ _

theorem insertAbove_flushEntry (state : State) (entry : Option Entry) :
    (state.flushEntry entry).written =
      insertAbove state.written ((entry.elim [] Entry.pending).map moved) := by
  cases entry with
  | none => exact (insertAbove_nil _).symm
  | some entry => exact insertAbove_flush state entry.pending

/-! ### The end of the document -/

theorem insertAbove_closeTop_atEnd {frame : Frame} {rest : Stack}
    (hstack : state.stack = frame :: rest) :
    (state.closeTop true).stack = rest ∧ (state.closeTop true).root = state.root ∧
      (state.closeTop true).orphans = state.orphans ∧
      (state.closeTop true).written = insertAbove state.written (frame.waiting.map moved) := by
  have hparts : ({ state with stack := rest }.flushEntry frame.scope.entry).root = state.root ∧
      ({ state with stack := rest }.flushEntry frame.scope.entry).orphans = state.orphans := by
    cases frame.scope.entry <;> exact ⟨rfl, rfl⟩
  have hwritten := insertAbove_flushEntry { state with stack := rest } frame.scope.entry
  simp only [closeTop, hstack, release]
  split
  · rename_i hempty
    rw [Frame.waiting, List.isEmpty_iff.1 hempty, List.append_nil]
    exact ⟨flushEntry_stack _ _, hparts.1, hparts.2, hwritten⟩
  · refine ⟨flushEntry_stack _ _, hparts.1, hparts.2, ?_⟩
    rw [if_pos trivial, insertAbove_flush]
    change insertAbove (flushEntry _ _).written _ = _
    rw [hwritten, insertAbove_insertAbove, ← List.map_append]
    rfl

theorem insertAbove_closeAtEnd (state : State) :
    (closeAtEnd state.stack.length state).root = state.root ∧
      (closeAtEnd state.stack.length state).orphans = state.orphans ∧
      (closeAtEnd state.stack.length state).written =
        insertAbove state.written (state.stack.waiting.map moved) := by
  generalize hstack : state.stack = stack
  induction stack generalizing state with
  | nil => exact ⟨rfl, rfl, (insertAbove_nil _).symm⟩
  | cons frame rest ih =>
    obtain ⟨hrest, hroot, horphans, hwritten⟩ := insertAbove_closeTop_atEnd hstack
    obtain ⟨hroot', horphans', hwritten'⟩ := ih (state.closeTop true) hrest
    rw [List.length_cons, closeAtEnd]
    refine ⟨hroot'.trans hroot, horphans'.trans horphans, ?_⟩
    rw [hwritten', hwritten, insertAbove_insertAbove, Stack.waiting_cons, List.map_append]

/-- At the end of the document, what waits is written frame by frame. -/
theorem insertAbove_unwind (state : State) :
    (unwind state).written = insertAbove state.written (state.waiting.map moved) := by
  obtain ⟨hroot, horphans, hwritten⟩ := insertAbove_closeAtEnd state
  rw [unwind]
  generalize closeAtEnd state.stack.length state = closed at hroot horphans hwritten ⊢
  simp only
  have hended := insertAbove_flushEntry { closed with root := { closed.root with entry := none } }
    closed.root.entry
  have horphans' : ({ closed with root := { closed.root with entry := none } }.flushEntry
      closed.root.entry).orphans = state.orphans := by
    rw [← horphans]
    cases closed.root.entry <;> rfl
  rw [insertAbove_flush, horphans']
  change insertAbove (flushEntry _ _).written _ = _
  rw [hended, insertAbove_insertAbove]
  change insertAbove closed.written _ = _
  rw [hwritten, insertAbove_insertAbove, waiting, List.map_append, List.map_append,
    List.append_assoc, ← hroot]
  rfl

/-! ### A line that ends frames -/

theorem insertAbove_closeTop {frame : Frame} {rest : Stack} (hstack : state.stack = frame :: rest) :
    (state.closeTop false).written =
      insertAbove state.written (frame.scope.waiting.map moved) := by
  have hwritten := insertAbove_flushEntry { state with stack := rest } frame.scope.entry
  have hhanded : ∀ (state : State) (lines : List Relocation),
      (state.handOver lines).written = state.written := by
    intro state lines
    simp only [handOver]
    split
    · rfl
    · split <;> rfl
  simp only [closeTop, hstack, release]
  split
  · exact hwritten
  · rw [if_neg Bool.false_ne_true, hhanded]
    exact hwritten

theorem insertAbove_closeFor (state : State) (registry : Registry) (line : Line) :
    ∃ waiting : List Relocation,
      (state.closeFor registry line).written = insertAbove state.written (waiting.map moved) ∧
        state.agenda.map Prod.snd = waiting.map moved ++
          (state.closeFor registry line).agenda.map Prod.snd := by
  refine closeFor_keeps
    (P := fun closed => ∃ waiting : List Relocation,
      closed.written = insertAbove state.written (waiting.map moved) ∧
        state.agenda.map Prod.snd = waiting.map moved ++ closed.agenda.map Prod.snd)
    ?_ registry line ⟨[], (insertAbove_nil _).symm, rfl⟩
  rintro closed ⟨waiting, hwritten, hagenda⟩
  cases hstack : closed.stack with
  | nil =>
    rw [closeTop_of_nil hstack]
    exact ⟨waiting, hwritten, hagenda⟩
  | cons frame rest =>
    refine ⟨waiting ++ frame.scope.waiting, ?_, ?_⟩
    · rw [insertAbove_closeTop hstack, hwritten, insertAbove_insertAbove, List.map_append]
    · rw [hagenda, agenda_closeTop hstack, List.map_append, map_snd_waitAt, List.map_append,
        List.append_assoc]

/-! ### The two orders -/

/-- The lines are those of `lines`, except that what has been lifted out of the innermost frame
stands below what already waits for the same item, and not above it. -/
def Regroups (state : State) (lines lines' : List OutLine) : Prop :=
  ∃ item above below, state.owner? = some item ∧
    lines = above ++ (state.lifted.map moved ++ item.pending.map moved) ++ below ∧
    lines' = above ++ (item.pending.map moved ++ state.lifted.map moved) ++ below

theorem regroups_agenda (h : state.InOrder) {item : Entry} (howner : state.owner? = some item) :
    state.Regroups (state.waiting.map moved) (state.agenda.map Prod.snd) := by
  obtain ⟨inner, below, _, _, hagenda, hwaiting⟩ := h.exists_agenda
  rw [kept_of_owner? howner] at hagenda hwaiting
  refine ⟨item, inner.map Prod.snd, below.map Prod.snd, howner, ?_, ?_⟩
  · rw [hwaiting, List.map_append, List.append_assoc, List.append_assoc, List.append_assoc]
  · rw [hagenda]
    simp

theorem Regroups.insertAbove {lines lines' : List OutLine} (h : state.Regroups lines lines')
    (written : List OutLine) :
    state.Regroups (Pass.insertAbove written lines).reverse
      (Pass.insertAbove written lines').reverse := by
  obtain ⟨item, above, below, howner, rfl, rfl⟩ := h
  refine ⟨item, (written.dropWhile OutLine.trivia).reverse ++ above,
    below ++ (written.takeWhile OutLine.trivia).reverse, howner, ?_, ?_⟩
  · simp [Pass.insertAbove]
  · simp [Pass.insertAbove]

end State

end Pass
end Reindent
