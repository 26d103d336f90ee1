import Reindent.Proofs.Pass.Opening
import Reindent.Proofs.Pass.Outcome
import Reindent.Proofs.Pass.Visit
import Reindent.Proofs.Line.Reading
import Reindent.Proofs.Text.Lines
import Mathlib.Algebra.Order.Group.Multiset
import Mathlib.Tactic.Abel

/-!
# Reindent.Proofs.Pass.Conservation

A pass neither loses nor doubles a line.

* `OutLine.Writes` — a line of the output is a line of the input but for its indentation.
* `State.held`     — the lines that a state holds: written, or waiting in one of its buffers.
* `held_step`      — a step adds the line that comes of the line it reads to what is held, whatever
  way that line takes.
* `runLines_writes` — the output of a pass is its input, reordered and indented anew.
-/

namespace Reindent

/-- `out` is the line `input`, with another indentation at most. -/
structure OutLine.Writes (out : OutLine) (input : InputLine) : Prop where
  number : out.number = input.number
  ending : out.ending = input.ending
  body : ∃ column, out.body = Text.spaces column ++ input.line.content

/-! ### What waits in the buffers -/

/-- The lines that wait for the end of the scope's item. -/
def Scope.waiting (scope : Scope) : List Relocation :=
  scope.entry.elim [] Entry.pending

/-- The lines that wait for the end of the frame, and of its item. -/
def Frame.waiting (frame : Frame) : List Relocation :=
  frame.scope.waiting ++ frame.relocations

namespace Stack

def waiting (stack : Stack) : List Relocation :=
  stack.flatMap Frame.waiting

@[simp] theorem waiting_nil : waiting [] = [] := rfl

@[simp] theorem waiting_cons (frame : Frame) (rest : Stack) :
    waiting (frame :: rest) = frame.waiting ++ waiting rest := rfl

end Stack

theorem Scope.waiting_append {scope : Scope} (h : scope.item?.isSome) (lines : List Relocation) :
    (scope.append lines).waiting = scope.waiting ++ lines := by
  cases he : scope.entry with
  | none => simp [Scope.item?, he] at h
  | some entry => simp [Scope.waiting, Scope.append, he]

theorem Entry.pending_ofLine (line : Line) (output : Nat) :
    (Entry.ofLine line output).pending = [] := by
  simp only [Entry.ofLine]
  split <;> rfl

theorem Stack.waiting_handInnermost? {lines : List Relocation} {stack stack' : Stack}
    (h : handInnermost? lines stack = some stack') :
    (stack'.waiting : Multiset Relocation) = stack.waiting + lines := by
  induction stack generalizing stack' with
  | nil => simp [handInnermost?] at h
  | cons frame rest ih =>
    by_cases hitem : frame.scope.item?.isSome
    · simp only [handInnermost?, hitem, if_true, Option.some.injEq] at h
      subst h
      simp only [waiting_cons, Frame.waiting, Scope.waiting_append hitem, ← Multiset.coe_add]
      abel
    · simp only [handInnermost?, hitem, Bool.false_eq_true, if_false] at h
      obtain ⟨rest', hrest, rfl⟩ := Option.map_eq_some_iff.1 h
      simp only [waiting_cons, ← Multiset.coe_add, ih hrest]
      abel

namespace Pass
namespace State

/-- The lines in all buffers. -/
def waiting (state : State) : List Relocation :=
  state.stack.waiting ++ state.root.waiting ++ state.orphans

/-- The lines that have been written or wait. -/
def held (state : State) : Multiset OutLine :=
  state.written + state.waiting.map moved

theorem held_eq (state : State) :
    state.held =
      (state.written : Multiset OutLine) + (state.stack.waiting.map moved : List OutLine) +
      (state.root.waiting.map moved : List OutLine) + (state.orphans.map moved : List OutLine) := by
  simp only [held, waiting, List.map_append, ← Multiset.coe_add]
  abel

/-! ### Moves between the buffers -/

theorem held_log (state : State) (event : Event) : (state.log event).held = state.held := rfl

theorem written_flush (state : State) (lines : List Relocation) :
    ((state.flush lines).written : Multiset OutLine) =
      state.written + (lines.map moved : List OutLine) := by
  have h : (state.written : Multiset OutLine) =
      state.written.takeWhile OutLine.trivia + state.written.dropWhile OutLine.trivia := by
    rw [Multiset.coe_add, List.takeWhile_append_dropWhile]
  rw [h]
  simp only [flush, ← Multiset.coe_add, Multiset.coe_reverse]
  abel

theorem held_flush (state : State) (lines : List Relocation) :
    (state.flush lines).held = state.held + (lines.map moved : List OutLine) := by
  rw [held, written_flush, held]
  simp only [flush, waiting]
  abel

theorem held_flushEntry (state : State) (entry : Option Entry) :
    (state.flushEntry entry).held =
      state.held + ((entry.elim [] Entry.pending).map moved : List OutLine) := by
  cases entry with
  | none => simp [flushEntry]
  | some entry => exact held_flush state entry.pending

theorem held_handOver (state : State) (lines : List Relocation) :
    (state.handOver lines).held = state.held + (lines.map moved : List OutLine) := by
  simp only [handOver]
  split
  · rename_i stack hstack
    have hwaiting := congrArg (Multiset.map moved) (Stack.waiting_handInnermost? hstack)
    simp only [Multiset.map_add, Multiset.map_coe] at hwaiting
    simp only [held_eq, hwaiting]
    abel
  · split
    · rename_i hroot
      simp only [held_eq, Scope.waiting_append hroot, List.map_append, ← Multiset.coe_add]
      abel
    · simp only [held_eq, List.map_append, ← Multiset.coe_add]
      abel

theorem held_release (state : State) (atEnd : Bool) (frame : Frame) :
    (state.release atEnd frame).held =
      state.held + (frame.relocations.map moved : List OutLine) := by
  simp only [release]
  split
  · rename_i h
    simp [List.isEmpty_iff.1 h]
  · split
    · rw [held_flush, held_log]
    · exact held_handOver _ _

/-- Ending a frame keeps every line. -/
theorem held_closeTop (state : State) (atEnd : Bool) :
    (state.closeTop atEnd).held = state.held := by
  cases hstack : state.stack with
  | nil => simp [closeTop, hstack]
  | cons frame rest =>
    simp only [closeTop, hstack, held_release, held_flushEntry]
    simp only [held_eq, hstack, Stack.waiting_cons, Frame.waiting, Scope.waiting, List.map_append,
      ← Multiset.coe_add]
    abel

theorem held_closeFor (state : State) (registry : Registry) (line : Line) :
    (state.closeFor registry line).held = state.held :=
  closeFor_keeps (P := fun closed => closed.held = state.held)
    (fun closed h => (held_closeTop closed false).trans h) registry line rfl

theorem held_closeAtEnd (count : Nat) (state : State) :
    (closeAtEnd count state).held = state.held :=
  closeAtEnd_keeps (P := fun closed => closed.held = state.held)
    (fun closed h => (held_closeTop closed true).trans h) count rfl

theorem held_withScope (state : State) (scope : Scope) :
    (state.withScope scope).held + (state.scope.waiting.map moved : List OutLine) =
      state.held + (scope.waiting.map moved : List OutLine) := by
  cases hstack : state.stack with
  | nil =>
    simp only [withScope, State.scope, hstack, held_eq]
    abel
  | cons frame rest =>
    simp only [withScope, State.scope, hstack, held_eq, Stack.waiting_cons, Frame.waiting,
      List.map_append, ← Multiset.coe_add]
    abel

/-- What the ended child leaves, and what waits in a scope after a line has been recorded. -/
theorem waiting_record (scope : Scope) (line : Line) (placement : Placement) :
    ((scope.record line placement).2.elim [] Entry.pending) ++
      (scope.record line placement).1.waiting = scope.waiting := by
  cases placement with
  | entry indent => simp [Scope.record, Scope.waiting, Entry.pending_ofLine]
  | member indent =>
    cases h : scope.entry <;> simp [Scope.record, Scope.waiting, Entry.addMember, h]
  | carried indent => simp [Scope.record]
  | unchanged => simp [Scope.record]

theorem held_record (state : State) (line : Line) (placement : Placement) :
    (state.record line placement).held = state.held := by
  have hwaiting := congrArg (List.map moved) (waiting_record state.scope line placement)
  have hcoe := congrArg (fun lines : List OutLine => (lines : Multiset OutLine)) hwaiting
  simp only [List.map_append, ← Multiset.coe_add] at hcoe
  rw [add_comm] at hcoe
  have hscope := held_withScope state (state.scope.record line placement).1
  rw [record, held_flushEntry]
  refine add_right_cancel (b := (state.scope.waiting.map moved : Multiset OutLine)) ?_
  rw [add_right_comm, hscope, add_assoc, hcoe]

/-! ### New lines -/

theorem written_writeAt (state : State) {input : InputLine} (hread : input.line.IsRead)
    (column : Nat) :
    (state.writeAt input column).written =
      { body := Text.spaces column ++ input.line.content, ending := input.ending,
        number := input.number, trivia := false } :: state.written := by
  simp only [writeAt]
  split
  · rename_i hcolumn
    rw [hcolumn, hread.spaces_append_content]
    rfl
  · rfl

theorem written_writeBody (state : State) {input : InputLine} (hread : input.line.IsRead)
    (shift : Int) :
    (state.writeBody input shift).written =
      { body :=
          Text.spaces (if input.line.category = .blank then input.line.indent
            else (input.line.indent + shift).toNat) ++ input.line.content
        ending := input.ending, number := input.number, trivia := false } :: state.written := by
  simp only [writeBody]
  split
  · rename_i hstays
    have hcolumn : (if input.line.category = .blank then input.line.indent
        else (input.line.indent + shift).toNat) = input.line.indent := by
      split
      · rfl
      · rename_i hblank
        rw [hstays.resolve_right hblank, Int.add_zero, Int.toNat_natCast]
    rw [hcolumn, hread.spaces_append_content]
    rfl
  · rename_i hmoves
    rw [if_neg (not_or.1 hmoves).2]
    rfl

theorem written_passThrough (state : State) {input : InputLine} (hread : input.line.IsRead) :
    (state.passThrough input).written =
      { body := Text.spaces input.line.indent ++ input.line.content, ending := input.ending,
        number := input.number, trivia := input.line.isTrivia } :: state.written := by
  rw [hread.spaces_append_content]
  simp only [passThrough, writeVerbatim, write]
  split <;> rfl

theorem waiting_writeAt (state : State) (input : InputLine) (column : Nat) :
    (state.writeAt input column).waiting = state.waiting := by
  simp only [writeAt]
  split <;> rfl

theorem waiting_writeBody (state : State) (input : InputLine) (shift : Int) :
    (state.writeBody input shift).waiting = state.waiting := by
  simp only [writeBody]
  split <;> rfl

theorem waiting_passThrough (state : State) (input : InputLine) :
    (state.passThrough input).waiting = state.waiting := by
  simp only [passThrough]
  split <;> rfl

theorem held_of_written {state state' : State} {out : OutLine}
    (hwritten : state'.written = out :: state.written) (hwaiting : state'.waiting = state.waiting) :
    state'.held = out ::ₘ state.held := by
  rw [held, held, hwritten, hwaiting, ← Multiset.cons_coe, Multiset.cons_add]

/-- A line that is lifted out waits on the innermost frame. -/
theorem held_liftOut {state : State} {frame : Frame} {rest : Stack}
    (hstack : state.stack = frame :: rest) (input : InputLine) (key : Text) :
    (state.liftOut input key).held =
      { body := Text.spaces frame.baseIndent ++ input.line.content, ending := input.ending,
        number := input.number, moved := true, trivia := false } ::ₘ state.held := by
  simp only [liftOut, hstack, held_eq, Stack.waiting_cons, Frame.waiting, List.map_append,
    List.map_cons, List.map_nil, ← Multiset.coe_add, Multiset.coe_singleton,
    ← Multiset.singleton_add, moved, Relocation.render]
  abel

theorem held_openFrame {state state' : State} {frame : Frame} (hframe : frame.waiting = [])
    (h : state.openFrame frame = .ok state') : state'.held = state.held := by
  cases hstack : state.stack with
  | nil =>
    simp only [openFrame, Stack.push, State.log, hstack, Except.ok.injEq] at h
    subst h
    simp [held_eq, hstack, hframe]
  | cons top rest =>
    simp only [openFrame, Stack.push, State.log, hstack] at h
    split at h
    · rename_i stack hpush
      split at hpush
      · cases hpush
      · cases hpush
        cases h
        simp [held_eq, hstack, hframe]
    · cases h

theorem waiting_opening? {state : State} {registry : Registry} {line : Line}
    {placement : Placement} {indent : Nat} {ahead : Option Line} {frame : Frame}
    (h : state.opening? registry line placement indent ahead = some frame) :
    frame.waiting = [] := by
  obtain ⟨hentry, hrelocations⟩ := (opens_of_opening? h).fresh
  rw [Frame.waiting, Scope.waiting, hentry, hrelocations]
  rfl

theorem written_openFrame {state state' : State} {frame : Frame}
    (h : state.openFrame frame = .ok state') : state'.written = state.written := by
  simp only [openFrame] at h
  split at h
  · cases h
    rfl
  · cases h

/-- A line that is settled is written once the item that it ends has been. -/
theorem written_settle {state state' : State} {registry : Registry} {input : InputLine}
    {ahead : Option Line} (hread : input.line.IsRead)
    (h : state.settle registry input ahead = .ok state') :
    state'.written =
      { body := Text.spaces ((state.place input.line).indent input.line) ++ input.line.content,
        ending := input.ending, number := input.number, trivia := false } ::
        (state.record input.line (state.place input.line)).written := by
  have hwritten := written_writeAt (state.record input.line (state.place input.line)) hread
    ((state.place input.line).indent input.line)
  simp only [settle] at h
  split at h
  · rw [written_openFrame h]
    exact hwritten
  · cases h
    exact hwritten

theorem held_settle {state state' : State} {registry : Registry} {input : InputLine}
    {ahead : Option Line} (hread : input.line.IsRead)
    (h : state.settle registry input ahead = .ok state') :
    state'.held =
      { body := Text.spaces ((state.place input.line).indent input.line) ++ input.line.content,
        ending := input.ending, number := input.number, trivia := false } ::ₘ state.held := by
  have hheld := held_of_written
    (written_writeAt (state.record input.line (state.place input.line)) hread
      ((state.place input.line).indent input.line))
    (waiting_writeAt _ _ _)
  rw [held_record] at hheld
  rw [← hheld]
  simp only [settle] at h
  split at h
  · rename_i frame hopening
    rw [held_openFrame (waiting_opening? hopening) h]
    rfl
  · cases h
    rfl

end State

namespace Visit

variable {registry : Registry} {visit : Visit}

theorem writes_out (registry : Registry) (visit : Visit) :
    (visit.out registry).Writes visit.input :=
  ⟨rfl, rfl, visit.column registry, rfl⟩

theorem out_of_text {body : ScalarBody} (htext : visit.isText = true)
    (hbody : visit.state.body = some body) :
    visit.out registry =
      { body :=
          Text.spaces (if visit.input.line.category = .blank then visit.input.line.indent
            else (visit.input.line.indent + body.shift).toNat) ++ visit.input.line.content
        ending := visit.input.ending, number := visit.input.number, trivia := false } := by
  simp [out, column, isRelocated, isStructural, htext, hbody]

theorem out_of_loose (htext : visit.isText = false)
    (hline : visit.input.line.isStructural = false) :
    visit.out registry =
      { body := Text.spaces visit.input.line.indent ++ visit.input.line.content,
        ending := visit.input.ending, number := visit.input.number,
        trivia := visit.input.line.isTrivia } := by
  simp [out, column, isRelocated, isStructural, htext, hline]

theorem not_isTrivia_of_isStructural {line : Line} (h : line.isStructural = true) :
    line.isTrivia = false := by
  simp only [Line.isStructural, Bool.and_eq_true, Bool.not_eq_true'] at h
  exact h.1

theorem out_of_relocated {frame : Frame} {rest : Stack} (h : visit.isRelocated registry = true)
    (hstack : (visit.ready registry).stack = frame :: rest) :
    visit.out registry =
      { body := Text.spaces frame.baseIndent ++ visit.input.line.content,
        ending := visit.input.ending, number := visit.input.number, moved := true,
        trivia := false } := by
  obtain ⟨hstructural, hlifted⟩ := isRelocated_iff.1 h
  obtain ⟨htext, hline⟩ := isStructural_iff.1 hstructural
  simp [out, column, h, htext, hline, hlifted, frame?, hstack, not_isTrivia_of_isStructural hline]

theorem trivia_of_isRelocated (h : visit.isRelocated registry = true) :
    (visit.out registry).trivia = false := by
  have hline := (isStructural_iff.1 (isRelocated_iff.1 h).1).2
  rw [out, not_isTrivia_of_isStructural hline, Bool.and_false]

theorem out_of_placed (h : visit.isPlaced registry = true) :
    visit.out registry =
      { body := Text.spaces ((visit.placement registry).indent visit.input.line) ++
          visit.input.line.content
        ending := visit.input.ending, number := visit.input.number, trivia := false } := by
  obtain ⟨hstructural, hlifted⟩ := isPlaced_iff.1 h
  obtain ⟨htext, hline⟩ := isStructural_iff.1 hstructural
  simp [out, column, isRelocated, htext, hline, hlifted, not_isTrivia_of_isStructural hline]

/-- A step adds the line that comes of the line that it reads to the lines held. -/
theorem held_step {next : State} (hread : visit.input.line.IsRead)
    (h : visit.state.step registry visit.input visit.rest = .ok next) :
    next.held = visit.out registry ::ₘ visit.state.held := by
  have houtcome := outcome_step registry visit
  rw [h] at houtcome
  have hready : (visit.ready registry).held = visit.state.held := State.held_closeFor _ _ _
  generalize hresult : Except.ok next = result at houtcome
  cases houtcome with
  | text htext hbody =>
    cases hresult
    rw [out_of_text htext hbody]
    exact State.held_of_written (State.written_writeBody _ hread _) (State.waiting_writeBody _ _ _)
  | loose htext hline =>
    cases hresult
    rw [out_of_loose htext hline]
    exact State.held_of_written (State.written_passThrough _ hread) (State.waiting_passThrough _ _)
  | @relocated frame rest key events hrelocated hstack =>
    cases hresult
    rw [out_of_relocated hrelocated hstack, ← hready]
    exact @State.held_liftOut ((visit.ready registry).withEvents events) frame rest hstack _ key
  | placed hplaced =>
    have hsettle := State.held_settle hread hresult.symm
    rw [out_of_placed hplaced, ← hready]
    exact hsettle

end Visit

theorem map_input_trail {registry : Registry} {inputs : List InputLine} {state final : State}
    (h : steps registry state inputs = .ok final) :
    (trail registry state inputs).map Visit.input = inputs := by
  induction inputs generalizing state with
  | nil => rfl
  | cons input rest ih =>
    obtain ⟨next, hstep, hrest⟩ := steps_cons_ok h
    simp only [trail, hstep, List.map_cons, ih hrest]

/-- After some lines, the lines that came of them are held. -/
theorem held_steps {registry : Registry} {inputs : List InputLine} {state final : State}
    (hread : ∀ input ∈ inputs, input.line.IsRead)
    (h : steps registry state inputs = .ok final) :
    final.held =
      ((trail registry state inputs).map (Visit.out registry) : Multiset OutLine) + state.held := by
  induction inputs generalizing state with
  | nil =>
    cases h
    simp [trail]
  | cons input rest ih =>
    obtain ⟨next, hstep, hrest⟩ := steps_cons_ok h
    have hnext := @Visit.held_step registry ⟨state, input, rest⟩ next
      (hread input List.mem_cons_self) hstep
    rw [ih (fun i hi => hread i (List.mem_cons_of_mem _ hi)) hrest, hnext]
    simp only [trail, hstep, List.map_cons, ← Multiset.cons_coe, Multiset.cons_add,
      Multiset.add_cons]

theorem stack_closeAtEnd (state : State) :
    (State.closeAtEnd state.stack.length state).stack = [] := by
  have hlength : ∀ (count : Nat) (state : State),
      (State.closeAtEnd count state).stack.length = state.stack.length - count := by
    intro count
    induction count with
    | zero => intro state; rfl
    | succ count ih =>
      intro state
      rw [State.closeAtEnd, ih, State.closeTop_stack_length]
      omega
  exact List.length_eq_zero_iff.1 (by rw [hlength, Nat.sub_self])

/-- At the end of the document no line waits any more, and every line that was held is written. -/
theorem written_unwind (state : State) :
    ((unwind state).written : Multiset OutLine) = state.held := by
  rw [← State.held_closeAtEnd state.stack.length state, State.held_eq, stack_closeAtEnd]
  simp only [unwind]
  rw [State.written_flush]
  cases hentry : (State.closeAtEnd state.stack.length state).root.entry with
  | none => simp [State.flushEntry, Scope.waiting, hentry]
  | some entry =>
    have hflush := State.written_flush
      { State.closeAtEnd state.stack.length state with
        root := { (State.closeAtEnd state.stack.length state).root with entry := none } }
      entry.pending
    simp only [State.flushEntry, Scope.waiting, hentry, Option.elim_some]
    rw [hflush]
    simp [State.flush]

/-- The output of a pass is what comes of its lines, reordered. -/
theorem perm_unwind {registry : Registry} {inputs : List InputLine} {final : State}
    (hread : ∀ input ∈ inputs, input.line.IsRead) (h : steps registry {} inputs = .ok final) :
    (unwind final).written.Perm ((trail registry {} inputs).map (Visit.out registry)) := by
  rw [← Multiset.coe_eq_coe, written_unwind, held_steps hread h]
  simp [State.held, State.waiting, Scope.waiting]

theorem perm_trail {registry : Registry} {lines : List RawLine} {pass : Pass}
    (h : runLines registry lines = .ok pass) :
    pass.lines.Perm
      ((trail registry {} (InputLine.ofLines 1 lines)).map (Visit.out registry)) := by
  obtain ⟨state, hsteps, _, hcollect⟩ := runLines_ok h
  obtain ⟨_, hlines, _, _, _⟩ := collect_ok hcollect
  rw [hlines]
  exact (List.reverse_perm _).trans
    (perm_unwind (fun _ hi => InputLine.isRead_of_mem_ofLines hi) hsteps)

theorem forall₂_writes (registry : Registry) (visits : List Visit) :
    List.Forall₂ OutLine.Writes (visits.map (Visit.out registry)) (visits.map Visit.input) := by
  induction visits with
  | nil => exact .nil
  | cons visit visits ih => exact .cons (visit.writes_out registry) ih

/-- The output of a pass is its input, reordered and indented anew. -/
theorem runLines_writes {registry : Registry} {lines : List RawLine} {pass : Pass}
    (h : runLines registry lines = .ok pass) :
    ∃ outs : List OutLine, List.Forall₂ OutLine.Writes outs (InputLine.ofLines 1 lines) ∧
      pass.lines.Perm outs := by
  obtain ⟨state, hsteps, _, _⟩ := runLines_ok h
  have hwrites := forall₂_writes registry (trail registry {} (InputLine.ofLines 1 lines))
  rw [map_input_trail hsteps] at hwrites
  exact ⟨_, hwrites, perm_trail h⟩

end Pass

/-! ### No characters but those of the input -/

theorem InputLine.raw_of_mem_ofLines {n : Nat} {lines : List RawLine} {input : InputLine}
    (h : input ∈ ofLines n lines) :
    ∃ i raw, lines[i]? = some raw ∧ input = ⟨n + i, Line.ofText raw.body, raw.ending⟩ := by
  induction lines generalizing n with
  | nil => cases h
  | cons first rest ih =>
    rw [ofLines] at h
    rcases List.mem_cons.1 h with rfl | h
    · exact ⟨0, first, rfl, rfl⟩
    · obtain ⟨i, raw, hraw, rfl⟩ := ih h
      refine ⟨i + 1, raw, hraw, ?_⟩
      rw [Nat.add_assoc, Nat.add_comm 1 i]

theorem OutLine.exists_writes {outs : List OutLine} {inputs : List InputLine}
    (h : List.Forall₂ OutLine.Writes outs inputs) {out : OutLine} (hout : out ∈ outs) :
    ∃ input ∈ inputs, out.Writes input := by
  induction h with
  | nil => cases hout
  | cons hwrites _ ih =>
    rcases List.mem_cons.1 hout with rfl | hout
    · exact ⟨_, List.mem_cons_self, hwrites⟩
    · obtain ⟨input, hinput, hwrites⟩ := ih hout
      exact ⟨input, List.mem_cons_of_mem _ hinput, hwrites⟩

theorem OutLine.Writes.not_mem {out : OutLine} {input : InputLine} (h : out.Writes input) {c : Char}
    (hspace : c ≠ ' ') (hc : c ∉ input.line.text) : c ∉ out.body := by
  obtain ⟨column, hbody⟩ := h.body
  rw [hbody, Text.spaces, List.mem_append, List.mem_replicate]
  rintro (⟨_, hcolumn⟩ | hcontent)
  · exact hspace hcolumn
  · exact hc (List.mem_of_mem_drop hcontent)

namespace Pass

variable {registry : Registry} {text : Text} {pass : Pass}

theorem not_mem_run (h : run registry text = .ok pass) {c : Char} (hspace : c ≠ ' ')
    (hc : ∀ line ∈ text.splitLines, c ∉ line.body) : ∀ line ∈ pass.lines, c ∉ line.body := by
  obtain ⟨outs, houts, hperm⟩ := runLines_writes h
  intro line hline
  obtain ⟨input, hinput, hwrites⟩ := OutLine.exists_writes houts (hperm.subset hline)
  obtain ⟨i, raw, hraw, rfl⟩ := InputLine.raw_of_mem_ofLines hinput
  refine hwrites.not_mem hspace ?_
  rw [Line.text_ofText]
  exact hc raw (List.mem_of_getElem? hraw)

theorem feed_not_mem_run (h : run registry text = .ok pass) :
    ∀ line ∈ pass.lines, '\n' ∉ line.body :=
  not_mem_run h (by decide) (Text.closed_splitLines text).not_mem_body

end Pass
end Reindent
