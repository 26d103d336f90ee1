import Reindent.Proofs.Pass.Failure
import Mathlib.Data.List.Chain
import Mathlib.Data.List.Pairwise
import Mathlib.Data.List.TakeWhile

/-!
# Reindent.Proofs.Pass.Rearrangement

A pass rearranges the lines of a document, and loses count of nothing on the way.

* `State.Stable`  — what holds whatever relocations are written; ending frames and items keeps it.
* `Booked`        — the output and the counters after some lines: the lines that are not relocated
  are there in their order, and the others below them.
* `booked_steps`  — the books are kept from line to line.
* `Rearranges`    — the output of a pass is what comes of its lines, in this order.
* `rearranges_or_frameOrder` — a pass rearranges the document, or a frame does not fit into the one
  around it.
-/

namespace Reindent

/-- `line` may be written below `above`: no line that is relocated stands above a line that it
followed, unless that one is relocated too, or trivia. -/
def OutLine.MayFollow (line above : OutLine) : Prop :=
  above.moved = true → line.moved = false → line.trivia = false → above.number < line.number

/-- `line` may be written directly below `above`: a line that is relocated does not go below
trivia. -/
def OutLine.MayTouch (line above : OutLine) : Prop :=
  line.moved = true → line.trivia = false → above.trivia = false

namespace Pass

/-- The lines that are not relocated. -/
def unmoved (lines : List OutLine) : List OutLine :=
  lines.filter fun line => !line.moved

namespace State

/-- How many relocations have been written, and how many lines have been lifted out. -/
def counters (state : State) : Nat × Nat :=
  (state.emitted, state.buffered)

theorem counters_writeAt (state : State) (input : InputLine) (column : Nat) :
    (state.writeAt input column).counters = state.counters := by
  simp only [writeAt]
  split <;> rfl

theorem counters_writeBody (state : State) (input : InputLine) (shift : Int) :
    (state.writeBody input shift).counters = state.counters := by
  simp only [writeBody]
  split <;> rfl

theorem counters_passThrough (state : State) (input : InputLine) :
    (state.passThrough input).counters = state.counters := by
  simp only [passThrough]
  split <;> rfl

theorem counters_openFrame {state state' : State} {frame : Frame}
    (h : state.openFrame frame = .ok state') : state'.counters = state.counters := by
  simp only [openFrame] at h
  split at h
  · cases h
    rfl
  · cases h

theorem counters_settle {state state' : State} {registry : Registry} {input : InputLine}
    {ahead : Option Line} (h : state.settle registry input ahead = .ok state') :
    state'.counters = (state.record input.line (state.place input.line)).counters := by
  rw [← counters_writeAt (state.record input.line (state.place input.line)) input
    ((state.place input.line).indent input.line)]
  simp only [settle] at h
  split at h
  · rw [counters_openFrame h]
    rfl
  · cases h
    rfl

/-- What holds of the output and of the counters whatever relocations are written. -/
structure Stable (P : State → Prop) : Prop where
  flush : ∀ state lines, P state → P (state.flush lines)
  congr : ∀ state state' : State, state'.written = state.written →
    state'.counters = state.counters → P state → P state'

variable {P : State → Prop} {registry : Registry} {state : State}

namespace Stable

theorem flushEntry (hstable : Stable P) (h : P state) (entry : Option Entry) :
    P (state.flushEntry entry) := by
  cases entry with
  | none => exact h
  | some entry => exact hstable.flush state entry.pending h

theorem handOver (hstable : Stable P) (h : P state) (lines : List Relocation) :
    P (state.handOver lines) := by
  simp only [State.handOver]
  split
  · exact hstable.congr state _ rfl rfl h
  · split <;> exact hstable.congr state _ rfl rfl h

theorem release (hstable : Stable P) (h : P state) (atEnd : Bool) (frame : Frame) :
    P (state.release atEnd frame) := by
  simp only [State.release]
  split
  · exact h
  · split
    · exact hstable.flush _ _ (hstable.congr state _ rfl rfl h)
    · exact hstable.handOver h _

theorem closeTop (hstable : Stable P) (h : P state) (atEnd : Bool) : P (state.closeTop atEnd) := by
  simp only [State.closeTop]
  split
  · exact h
  · rename_i rest _
    have hrest : P { state with stack := rest } := hstable.congr state _ rfl rfl h
    exact hstable.release (hstable.flushEntry hrest _) atEnd _

theorem closeFor (hstable : Stable P) (h : P state) (line : Line) :
    P (state.closeFor registry line) :=
  closeFor_keeps (P := P) (fun _ h => hstable.closeTop h false) registry line h

theorem closeAtEnd (hstable : Stable P) (count : Nat) (h : P state) :
    P (State.closeAtEnd count state) :=
  closeAtEnd_keeps (P := P) (fun _ h => hstable.closeTop h true) count h

theorem record (hstable : Stable P) (h : P state) (line : Line) (placement : Placement) :
    P (state.record line placement) := by
  refine hstable.flushEntry ?_ _
  simp only [withScope]
  split <;> exact hstable.congr state _ rfl rfl h

theorem unwind (hstable : Stable P) (h : P state) : P (Pass.unwind state) := by
  have hclosed := hstable.closeAtEnd state.stack.length h
  simp only [Pass.unwind]
  generalize State.closeAtEnd state.stack.length state = closed at hclosed
  have hended : P { closed with root := { closed.root with entry := none } } :=
    hstable.congr closed _ rfl rfl hclosed
  have hwritten := hstable.flushEntry hended closed.root.entry
  generalize { closed with root := { closed.root with entry := none } }.flushEntry
    closed.root.entry = written at hwritten
  exact hstable.flush _ _ (hstable.congr written _ rfl rfl hwritten)

end Stable

end State

namespace Visit

variable {P : State → Prop} {registry : Registry} {visit : Visit} {next : State}

/-- A step writes the line that comes of its line on top of the relocations that it ends, or makes
it wait. -/
theorem step_of_stable (hstable : State.Stable P) (h : P visit.state)
    (hread : visit.input.line.IsRead)
    (hstep : visit.state.step registry visit.input visit.rest = .ok next) :
    ∃ before, P before ∧
      if visit.isRelocated registry = true then
        next.written = before.written ∧ next.emitted = before.emitted ∧
          next.buffered = before.buffered + 1
      else
        next.written = visit.out registry :: before.written ∧ next.counters = before.counters := by
  have houtside : P { visit.state with body := none } := hstable.congr visit.state _ rfl rfl h
  have hready : P (visit.ready registry) := hstable.closeFor houtside _
  have houtcome := outcome_step registry visit
  rw [hstep] at houtcome
  generalize hresult : Except.ok next = result at houtcome
  cases houtcome with
  | text htext hbody =>
    cases hresult
    have hmoved : visit.isRelocated registry = false := by
      simp [isRelocated, isStructural, htext]
    rw [hmoved, out_of_text htext hbody]
    exact ⟨visit.state, h, State.written_writeBody _ hread _, State.counters_writeBody _ _ _⟩
  | loose htext hline =>
    cases hresult
    have hmoved : visit.isRelocated registry = false := by
      simp [isRelocated, isStructural, hline]
    rw [hmoved, out_of_loose htext hline]
    exact ⟨_, houtside, State.written_passThrough _ hread, State.counters_passThrough _ _⟩
  | @relocated frame rest key events hrelocated hstack =>
    cases hresult
    have hlifted : ((visit.ready registry).withEvents events).stack = frame :: rest := hstack
    refine ⟨_, hready, ?_⟩
    simp only [hrelocated, if_true, State.liftOut, hlifted]
    exact ⟨rfl, rfl, rfl⟩
  | @placed events hplaced =>
    have hmoved : visit.isRelocated registry = false := by
      simp [isRelocated, (isPlaced_iff.1 hplaced).2]
    have hlogged : P ((visit.ready registry).withEvents events) :=
      hstable.congr (visit.ready registry) _ rfl rfl hready
    rw [hmoved, out_of_placed hplaced]
    exact ⟨_, hstable.record hlogged _ _, State.written_settle hread hresult.symm,
      State.counters_settle hresult.symm⟩

end Visit

/-! ### The books of a pass -/

/-- The output and the counters after the lines that `outs` came of. -/
structure Booked (outs : List OutLine) (state : State) : Prop where
  /-- Newest first, like the output. -/
  unmoved : unmoved state.written = (unmoved outs).reverse
  order : state.written.Pairwise OutLine.MayFollow
  touch : state.written.IsChain OutLine.MayTouch
  emitted : state.emitted = state.written.countP OutLine.moved
  buffered : state.buffered = outs.countP OutLine.moved

theorem unmoved_append (lines lines' : List OutLine) :
    unmoved (lines ++ lines') = unmoved lines ++ unmoved lines' :=
  List.filter_append lines lines'

theorem unmoved_moved (waiting : List Relocation) : unmoved (waiting.map State.moved) = [] := by
  rw [unmoved, List.filter_eq_nil_iff]
  intro line hline
  obtain ⟨r, _, rfl⟩ := List.mem_map.1 hline
  simp [State.moved]

theorem countP_moved (waiting : List Relocation) :
    (waiting.map State.moved).countP OutLine.moved = waiting.length := by
  rw [List.countP_map, List.countP_eq_length.2]
  intro r _
  rfl

/-- Relocations that are written below the last line that is no trivia are below every line that
they may not stand above. -/
theorem pairwise_flush {written moved : List OutLine}
    (h : written.Pairwise OutLine.MayFollow) (hmoved : ∀ line ∈ moved, line.moved = true) :
    (written.takeWhile OutLine.trivia ++ moved ++ written.dropWhile OutLine.trivia).Pairwise
      OutLine.MayFollow := by
  have hwaits : ∀ line ∈ moved, ∀ above, line.MayFollow above := by
    intro line hline above _ hstays
    rw [hmoved line hline] at hstays
    cases hstays
  have htrivia : ∀ line ∈ written.takeWhile OutLine.trivia, ∀ above, line.MayFollow above := by
    intro line hline above _ _ hcontent
    rw [List.mem_takeWhile_imp hline] at hcontent
    cases hcontent
  refine List.pairwise_append.2 ⟨List.pairwise_append.2 ⟨?_, ?_, ?_⟩, ?_, ?_⟩
  · exact h.sublist (List.takeWhile_sublist _)
  · exact List.pairwise_of_forall_mem_list fun line hline above _ => hwaits line hline above
  · exact fun line hline above _ => htrivia line hline above
  · exact h.sublist (List.dropWhile_sublist _)
  · intro line hline above _
    rcases List.mem_append.1 hline with hline | hline
    · exact htrivia line hline above
    · exact hwaits line hline above

theorem isChain_flush {written moved : List OutLine} (h : written.IsChain OutLine.MayTouch)
    (hmoved : ∀ line ∈ moved, line.trivia = false) :
    (written.takeWhile OutLine.trivia ++ moved ++ written.dropWhile OutLine.trivia).IsChain
      OutLine.MayTouch := by
  refine List.isChain_append.2 ⟨List.isChain_append.2 ⟨?_, ?_, ?_⟩, ?_, ?_⟩
  · exact h.prefix (List.takeWhile_prefix _)
  · refine List.Pairwise.isChain (List.pairwise_of_forall_mem_list ?_)
    exact fun _ _ above habove _ _ => hmoved above habove
  · exact fun _ _ above habove _ _ => hmoved above (List.mem_of_mem_head? habove)
  · exact h.suffix (List.dropWhile_suffix _)
  · intro _ _ above habove _ _
    have hhead := List.head?_dropWhile_not OutLine.trivia written
    rw [Option.mem_def.1 habove] at hhead
    exact hhead

theorem stable_booked (outs : List OutLine) : State.Stable (Booked outs) := by
  refine ⟨?_, ?_⟩
  · intro state waiting h
    have hwaiting : ∀ line ∈ (waiting.map State.moved).reverse,
        line.moved = true ∧ line.trivia = false := by
      intro line hline
      obtain ⟨r, _, rfl⟩ := List.mem_map.1 (List.mem_reverse.1 hline)
      exact ⟨rfl, rfl⟩
    refine ⟨?_, ?_, ?_, ?_, h.buffered⟩
    · rw [← h.unmoved]
      conv_rhs => rw [← List.takeWhile_append_dropWhile (p := OutLine.trivia) (l := state.written)]
      simp only [State.flush, unmoved_append, ← List.map_reverse, unmoved_moved, List.append_nil]
    · exact pairwise_flush h.order fun line hline => (hwaiting line hline).1
    · exact isChain_flush h.touch fun line hline => (hwaiting line hline).2
    · have hwritten := congrArg (List.countP OutLine.moved)
        (List.takeWhile_append_dropWhile (p := OutLine.trivia) (l := state.written))
      rw [List.countP_append] at hwritten
      simp only [State.flush, List.countP_append, List.countP_reverse, countP_moved, h.emitted]
      omega
  · intro state state' hwritten hcounters h
    simp only [State.counters, Prod.mk.injEq] at hcounters
    refine ⟨?_, ?_, ?_, ?_, ?_⟩
    · rw [hwritten, h.unmoved]
    · rw [hwritten]
      exact h.order
    · rw [hwritten]
      exact h.touch
    · rw [hwritten, hcounters.1, h.emitted]
    · rw [hcounters.2, h.buffered]

namespace Booked

variable {outs : List OutLine} {before next : State} {line : OutLine}

/-- A line that is lifted out is counted, and waits. -/
theorem lifted (h : Booked outs before) (hmoved : line.moved = true)
    (hwritten : next.written = before.written) (hemitted : next.emitted = before.emitted)
    (hbuffered : next.buffered = before.buffered + 1) : Booked (outs ++ [line]) next := by
  refine ⟨?_, ?_, ?_, ?_, ?_⟩
  · rw [hwritten, h.unmoved, unmoved_append]
    simp [Pass.unmoved, hmoved]
  · rw [hwritten]
    exact h.order
  · rw [hwritten]
    exact h.touch
  · rw [hwritten, hemitted, h.emitted]
  · rw [hbuffered, h.buffered, List.countP_append]
    simp [hmoved]

/-- Any other line is written below what the lines above it have come to. -/
theorem wrote (h : Booked outs before) (hmoved : line.moved = false)
    (hbefore : ∀ above ∈ before.written, above.number < line.number)
    (hwritten : next.written = line :: before.written)
    (hcounters : next.counters = before.counters) : Booked (outs ++ [line]) next := by
  simp only [State.counters, Prod.mk.injEq] at hcounters
  have hstays : ∀ above, line.MayTouch above := by
    intro above hlifted
    rw [hmoved] at hlifted
    cases hlifted
  refine ⟨?_, ?_, ?_, ?_, ?_⟩
  · rw [hwritten, unmoved_append, List.reverse_append, ← h.unmoved]
    simp [Pass.unmoved, hmoved]
  · rw [hwritten, List.pairwise_cons]
    exact ⟨fun above habove _ _ _ => hbefore above habove, h.order⟩
  · rw [hwritten, List.isChain_cons]
    exact ⟨fun above _ => hstays above, h.touch⟩
  · rw [hwritten, hcounters.1, h.emitted]
    simp [hmoved]
  · rw [hcounters.2, h.buffered, List.countP_append]
    simp [hmoved]

end Booked

theorem booked_step {registry : Registry} {visit : Visit} {next : State} {outs : List OutLine}
    (h : Booked outs visit.state) (hread : visit.input.line.IsRead)
    (hbefore : ∀ line ∈ visit.state.held, line.number < visit.input.number)
    (hstep : visit.state.step registry visit.input visit.rest = .ok next) :
    Booked (outs ++ [visit.out registry]) next := by
  have hnext := Visit.held_step hread hstep
  obtain ⟨before, hbooked, hwrites⟩ := Visit.step_of_stable (stable_booked outs) h hread hstep
  cases hrelocated : visit.isRelocated registry with
  | true =>
    rw [hrelocated, if_pos rfl] at hwrites
    obtain ⟨hwritten, hemitted, hbuffered⟩ := hwrites
    exact hbooked.lifted hrelocated hwritten hemitted hbuffered
  | false =>
    rw [hrelocated, if_neg Bool.false_ne_true] at hwrites
    obtain ⟨hwritten, hcounters⟩ := hwrites
    -- What was written before the line was held before it.
    have hheld : ∀ line ∈ before.written, line ∈ visit.state.held := by
      have hle : (next.written : Multiset OutLine) ≤ next.held := Multiset.le_add_right _ _
      rw [hwritten, hnext, ← Multiset.cons_coe, Multiset.cons_le_cons_iff] at hle
      exact fun line hline => Multiset.mem_of_le hle hline
    exact hbooked.wrote hrelocated (fun above habove => hbefore above (hheld above habove))
      hwritten hcounters

theorem booked_steps {registry : Registry} {inputs : List InputLine} {state final : State}
    {outs : List OutLine} (h : Booked outs state) (hread : ∀ input ∈ inputs, input.line.IsRead)
    (hsorted : (inputs.map InputLine.number).Pairwise (· < ·))
    (hbefore : ∀ line ∈ state.held, ∀ input ∈ inputs, line.number < input.number)
    (hsteps : steps registry state inputs = .ok final) :
    Booked (outs ++ (trail registry state inputs).map (Visit.out registry)) final := by
  induction inputs generalizing state outs with
  | nil =>
    cases hsteps
    simpa [trail] using h
  | cons input rest ih =>
    obtain ⟨next, hstep, hrest⟩ := steps_cons_ok hsteps
    rw [List.map_cons, List.pairwise_cons] at hsorted
    have hinput := hread input List.mem_cons_self
    have hfirst : ∀ line ∈ state.held, line.number < input.number :=
      fun line hline => hbefore line hline input List.mem_cons_self
    have hbooked := @booked_step registry ⟨state, input, rest⟩ next outs h hinput hfirst hstep
    have hheld := @Visit.held_step registry ⟨state, input, rest⟩ next hinput hstep
    have hnext : ∀ line ∈ next.held, ∀ below ∈ rest, line.number < below.number := by
      intro line hline below hbelow
      rw [hheld, Multiset.mem_cons] at hline
      rcases hline with rfl | hline
      · exact hsorted.1 _ (List.mem_map_of_mem hbelow)
      · exact hbefore line hline below (List.mem_cons_of_mem _ hbelow)
    have hlast := ih hbooked (fun i hi => hread i (List.mem_cons_of_mem _ hi)) hsorted.2 hnext hrest
    simpa [trail, hstep] using hlast

/-! ### The pass -/

/-- The output is what comes of the lines of the document, each once, and:
* the lines that are not relocated stand in their order;
* a relocated line stands below every line that it followed, relocated lines and trivia excepted;
* it stands directly below no trivia. -/
structure Rearranges (registry : Registry) (text : Text) (pass : Pass) : Prop where
  inputs : (trailOf registry text).map Visit.input = InputLine.ofLines 1 text.splitLines
  writes : List.Forall₂ OutLine.Writes ((trailOf registry text).map (Visit.out registry))
    (InputLine.ofLines 1 text.splitLines)
  perm : pass.lines.Perm ((trailOf registry text).map (Visit.out registry))
  unmoved : unmoved pass.lines = unmoved ((trailOf registry text).map (Visit.out registry))
  order : pass.lines.Pairwise fun above line => line.MayFollow above
  touch : pass.lines.IsChain fun above line => line.moved = true → above.trivia = false

section Complete

variable {registry : Registry} {lines : List RawLine} {final : State}
  (h : steps registry {} (InputLine.ofLines 1 lines) = .ok final)
include h

theorem booked_unwind :
    Booked ((trail registry {} (InputLine.ofLines 1 lines)).map (Visit.out registry))
      (unwind final) := by
  have hread : ∀ input ∈ InputLine.ofLines 1 lines, input.line.IsRead :=
    fun _ hi => InputLine.isRead_of_mem_ofLines hi
  have hsorted : ((InputLine.ofLines 1 lines).map InputLine.number).Pairwise (· < ·) := by
    rw [InputLine.map_number_ofLines]
    exact List.pairwise_lt_range'
  have hinitial : Booked [] {} := ⟨rfl, .nil, .nil, rfl, rfl⟩
  have hempty : ∀ line ∈ State.held {}, ∀ input ∈ InputLine.ofLines 1 lines,
      line.number < input.number := by
    intro line hline
    simp [State.held, State.waiting, Scope.waiting] at hline
  have hbooked := (stable_booked _).unwind (booked_steps hinitial hread hsorted hempty h)
  rw [List.nil_append] at hbooked
  exact hbooked

theorem perm_unwind_trail :
    (unwind final).written.Perm
      ((trail registry {} (InputLine.ofLines 1 lines)).map (Visit.out registry)) :=
  perm_unwind (fun _ hi => InputLine.isRead_of_mem_ofLines hi) h

theorem length_unwind : (unwind final).written.length = lines.length := by
  have hnumbers := congrArg (fun inputs => (inputs.map InputLine.number).length) (map_input_trail h)
  simp only [InputLine.map_number_ofLines, List.length_range', List.length_map] at hnumbers
  rw [(perm_unwind_trail h).length_eq, List.length_map]
  exact hnumbers

/-- A pass that reaches the end of a document passes its own checks there. -/
theorem runLines_of_steps :
    runLines registry lines = .ok ⟨(unwind final).written.reverse, lines.length,
      (unwind final).stats, (unwind final).events.reverse⟩ := by
  have hbooked := booked_unwind h
  have hstack : (unwind final).stack = [] := by
    simp only [unwind, State.flush_stack, State.flushEntry_stack]
    exact stack_closeAtEnd final
  have hcounters : (unwind final).buffered = (unwind final).emitted := by
    rw [hbooked.buffered, hbooked.emitted]
    exact ((perm_unwind_trail h).countP_eq _).symm
  have hfinish : finish final = .ok (unwind final) := by
    simp only [finish, hstack, hcounters, ne_eq, not_true, if_false]
  simp only [runLines, h, hfinish, collect, length_unwind h, ne_eq, not_true, if_false]

end Complete

section Document

variable {registry : Registry} {text : Text} {final : State}
  (h : steps registry {} (InputLine.ofLines 1 text.splitLines) = .ok final)
include h

theorem run_of_steps :
    run registry text = .ok ⟨(unwind final).written.reverse, text.splitLines.length,
      (unwind final).stats, (unwind final).events.reverse⟩ :=
  runLines_of_steps h

theorem rearranges_of_steps :
    ∃ pass, run registry text = .ok pass ∧ pass.Rearranges registry text := by
  have hbooked := booked_unwind h
  have hperm := perm_unwind_trail h
  have hinputs : (trailOf registry text).map Visit.input = InputLine.ofLines 1 text.splitLines :=
    map_input_trail h
  refine ⟨_, run_of_steps h, hinputs, ?_, ?_, ?_, ?_, ?_⟩
  · rw [← hinputs]
    exact forall₂_writes registry (trailOf registry text)
  · exact (List.reverse_perm _).trans hperm
  · have hunmoved := congrArg List.reverse hbooked.unmoved
    rw [List.reverse_reverse] at hunmoved
    simpa [Pass.unmoved, trailOf] using hunmoved
  · exact List.pairwise_reverse.2 hbooked.order
  · refine List.IsChain.imp_of_mem_imp ?_ (List.isChain_reverse.2 hbooked.touch)
    intro above line _ hline htouch hmoved
    refine htouch hmoved ?_
    obtain ⟨visit, _, rfl⟩ := List.mem_map.1 (hperm.subset (List.mem_reverse.1 hline))
    exact Visit.trivia_of_isRelocated hmoved

end Document

/-- A pass rearranges the lines of the document, or breaks off at a frame that does not fit into
the one around it. -/
theorem rearranges_or_frameOrder (registry : Registry) (text : Text) :
    (∃ pass, run registry text = .ok pass ∧ pass.Rearranges registry text) ∨
      ∃ failure, run registry text = .error failure ∧ failure.fault.IsFrameOrder := by
  cases hsteps : steps registry {} (InputLine.ofLines 1 text.splitLines) with
  | ok final => exact .inl (rearranges_of_steps hsteps)
  | error failure =>
    obtain ⟨visit, _, hstep⟩ := error_steps_iff.1 hsteps
    obtain ⟨frame, parent, _, hfault⟩ := Visit.breaks_of_error_step hstep
    refine .inr ⟨failure, ?_, _, _, _, _, hfault⟩
    simp only [run, runLines, hsteps]

end Pass
end Reindent
