import Reindent.Proofs.Pass.Closing
import Reindent.Proofs.Pass.DisplacedStep
import Reindent.Proofs.Pass.LeftEdge
import Reindent.Proofs.Pass.Rearrangement

/-!
# Reindent.Proofs.Pass.Concatenation

A document below another one, where both hold items at the left edge.

* `State.Restarts`   — a state that an item at the left edge ends all of.
* `State.Started`    — what is left of it once the item has been recorded.
* `displaced_first`  — the first line of the lower document.
* `displaced_lower`  — its other lines.
* `run_append`       — a pass over both documents does what the passes over each do.
-/

namespace Reindent

theorem placeAtRoot_left (scope : Scope) {line : Line} (hleft : line.indent = 0) :
    placeAtRoot scope line = .entry 0 := by
  simp only [placeAtRoot, hleft]
  split
  · rw [if_neg (Nat.not_lt_zero _)]
  · rfl

theorem Frame.displaceBy_zero {frame : Frame} (hentry : frame.scope.entry = none)
    (hrelocations : frame.relocations = []) (floor down : Nat) :
    frame.displaceBy 0 floor down = frame := by
  obtain ⟨role, key, inlineArgs, inputIndent, baseIndent, ⟨childInput, entry⟩, relocations⟩ := frame
  cases hentry
  cases hrelocations
  simp [displaceBy, Scope.displace]

theorem Entry.displace_zero {entry : Entry} (hpending : entry.pending = []) (down : Nat) :
    entry.displace 0 down = entry := by
  obtain ⟨_, _, _, _, _, member, _⟩ := entry
  cases hpending
  simp [displace, Anchor.displace_zero]

/-- An item at the left edge is written as it is. -/
def OutLine.ofTopItem (input : InputLine) : OutLine :=
  { body := input.line.text, ending := input.ending, number := input.number, trivia := false }

/-- What has been done above the lower document, and its first line. -/
def Ground.underItem (input : InputLine) (down : Nat) (above : List OutLine)
    (tally : Nat × Nat) : Ground where
  below := [OutLine.ofTopItem input]
  below' := (OutLine.ofTopItem input).renumber down :: above
  solid := rfl
  solid' := rfl
  relocated := tally.2
  reindented? := some tally.1

namespace Pass

variable {registry : Registry}

theorem map_inputElsewhere_ofLines (first down : Nat) (lines : List RawLine) :
    (InputLine.ofLines first lines).map (State.inputElsewhere { down }) =
      InputLine.ofLines (first + down) lines := by
  induction lines generalizing first with
  | nil => rfl
  | cons raw rest ih =>
    rw [InputLine.ofLines, InputLine.ofLines, List.map_cons, ih, Nat.add_right_comm first 1]
    rfl

namespace State

variable {state : State} {line : Line}

/-- An item at the left edge ends all that is open. -/
structure Restarts (state : State) : Prop where
  offEdge : state.OffEdge
  top : state.HasTopItem ∨ state.Untouched

theorem restarts_initial : Restarts {} :=
  ⟨offEdge_initial, .inr ⟨rfl, rfl, rfl, rfl⟩⟩

/-- The item has been recorded: all that was open has ended, and all that waited is written. -/
structure Started (state : State) (line : Line) (recorded : State) : Prop where
  stack : recorded.stack = []
  root : recorded.root = { childInput := some 0, entry := some (Entry.ofLine line 0) }
  orphans : recorded.orphans = []
  written : recorded.written = insertAbove state.written (state.agenda.map Prod.snd)
  tally : recorded.tally = state.tally

/-- Once the item is written in both documents, they differ in what stands above it. -/
theorem Started.displaced {input : InputLine} {recorded recorded' : State}
    (h : Started {} input.line recorded) (h' : state.Started input.line recorded')
    (body? : Option ScalarBody) (down : Nat) :
    Displaced { down }
      (.underItem input down (insertAbove state.written (state.agenda.map Prod.snd)) state.tally)
      { recorded with
        written := OutLine.ofTopItem input :: recorded.written
        body := body? }
      { recorded' with
        written := OutLine.ofTopItem (inputElsewhere { down } input) :: recorded'.written
        body := body? } := by
  refine ⟨?_, ?_, ?_, ⟨[], ?_, ?_⟩, ?_, ?_, ?_⟩
  · change recorded'.stack = recorded.stack.map _
    rw [h.stack, h'.stack]
    rfl
  · change recorded'.root = recorded.root.displace 0 down
    rw [h.root, h'.root]
    simp [Scope.displace, Entry.displace_zero (Entry.pending_ofLine _ _)]
  · change recorded'.orphans = recorded.orphans.map _
    rw [h.orphans, h'.orphans]
    rfl
  · change OutLine.ofTopItem input :: recorded.written = _
    rw [h.written]
    rfl
  · change OutLine.ofTopItem _ :: recorded'.written = _
    rw [h'.written]
    rfl
  · cases body? with
    | none => rfl
    | some body => simp [bodyElsewhere]
  · change recorded'.tally.2 = recorded.tally.2 + state.tally.2
    rw [h.tally, h'.tally]
    exact (Nat.zero_add _).symm
  · intro count hcount
    cases hcount
    refine ⟨rfl, ?_⟩
    change recorded'.tally.1 = recorded.tally.1 + state.tally.1
    rw [h.tally, h'.tally]
    exact (Nat.zero_add _).symm

theorem Restarts.stack_closeFor (registry : Registry) (h : state.Restarts)
    (hleft : line.indent = 0) :
    ({ state with body := none }.closeFor registry line).stack = [] := by
  have hcleared := map_cleared_closeFor { state with body := none } registry line
  have hall : (state.stack.map Frame.cleared).dropWhile
      (fun frame => frame.closesAt registry line) = [] := by
    rw [List.dropWhile_eq_nil_iff]
    intro frame hframe
    obtain ⟨before, hbefore, rfl⟩ := List.mem_map.1 hframe
    exact closesAt_of_pos (h.offEdge before hbefore) hleft
  exact List.map_eq_nil_iff.1 (hcleared.trans hall)

theorem Restarts.root_closeFor (registry : Registry) (h : state.Restarts) (line : Line) :
    ({ state with body := none }.closeFor registry line).orphans = [] ∧
      ({ state with body := none }.closeFor registry line).root.childInput.getD 0 = 0 := by
  rcases h.top with htop | huntouched
  · have houtside : HasTopItem { state with body := none } := htop.congr rfl rfl
    have hclosed : ({ state with body := none }.closeFor registry line).HasTopItem :=
      houtside.closeUpTo _ _
    refine ⟨hclosed.orphans, ?_⟩
    rw [hclosed.root.childInput]
    rfl
  · have hstack : State.stack { state with body := none } = [] := huntouched.stack
    rw [closeFor_nil hstack]
    refine ⟨huntouched.orphans, ?_⟩
    change state.root.childInput.getD 0 = 0
    rw [huntouched.root]
    rfl

theorem Restarts.started (registry : Registry) (h : state.Restarts) (hleft : line.indent = 0) :
    ({ state with body := none }.closeFor registry line).place line = .entry 0 ∧
      state.Started line
        (({ state with body := none }.closeFor registry line).record line
          (({ state with body := none }.closeFor registry line).place line)) := by
  have hstack := h.stack_closeFor registry hleft
  obtain ⟨horphans, hchild⟩ := h.root_closeFor registry line
  obtain ⟨waiting, hwritten, hagenda⟩ :=
    insertAbove_closeFor { state with body := none } registry line
  have hstats := stats_closeFor { state with body := none } registry line
  generalize { state with body := none }.closeFor registry line = closed at *
  have hplace : closed.place line = .entry 0 := by
    simp only [place, hstack, placeAtRoot_left _ hleft]
  refine ⟨hplace, ?_, ?_, ?_, ?_, ?_⟩
  · rw [hplace]
    simp only [record, withScope, hstack, flushEntry_stack]
  · rw [hplace]
    simp only [record, State.scope, withScope, hstack, root_flushEntry, Scope.record, hleft, hchild]
  · rw [orphans_record, horphans]
  · have hrecorded : (closed.record line (closed.place line)).written =
        insertAbove closed.written (closed.root.waiting.map moved) := by
      rw [hplace]
      simp only [record, State.scope, withScope, hstack, Scope.record, insertAbove_flushEntry]
      rfl
    have hlast : closed.agenda.map Prod.snd = closed.root.waiting.map moved := by
      rw [agenda, hstack, Stack.agenda_nil_nil, horphans, List.map_append, map_snd_waitAt]
      exact List.append_nil _
    rw [hrecorded, hwritten, insertAbove_insertAbove, ← hlast]
    exact congrArg (insertAbove state.written) hagenda.symm
  · rw [tally, stats_record, hstats]
    rfl

end State

namespace Visit

variable {visit : Visit}

theorem isText_top (hline : visit.input.line.IsTopItem) : visit.isText = false := by
  have hblank : visit.input.line.category ≠ .blank := by
    have hitem := hline.item
    simp only [Line.isItem, beq_iff_eq] at hitem
    rw [hitem]
    decide
  rw [isText]
  cases visit.state.body with
  | none => rfl
  | some body => simp [State.continuesBody, hblank, hline.left]

theorem step_top (registry : Registry) (h : visit.state.Restarts)
    (hline : visit.input.line.IsTopItem) :
    visit.state.step registry visit.input visit.rest =
      match visit.opened? registry with
      | some frame => ((visit.ready registry).settled visit.input).openFrame frame
      | none => .ok ((visit.ready registry).settled visit.input) := by
  have hstack : (visit.ready registry).stack = [] := h.stack_closeFor registry hline.left
  have hready : { visit.state with body := none }.closeFor registry visit.input.line =
      visit.ready registry := rfl
  rw [step_of_not_isText (isText_top hline), Line.isStructural_of_isItem hline.item, if_pos rfl,
    State.structural, hready, State.verdict_nil hstack]
  exact State.settle_eq _ _ _ _

theorem settled_top (registry : Registry) (h : visit.state.Restarts)
    (hline : visit.input.line.IsTopItem) :
    ∃ recorded, visit.state.Started visit.input.line recorded ∧
      recorded = (visit.ready registry).record visit.input.line (visit.placement registry) ∧
      (visit.ready registry).settled visit.input =
        { recorded with
          written := OutLine.ofTopItem visit.input :: recorded.written
          body := if visit.input.line.blockScalar then some ⟨0, 0⟩ else none } := by
  obtain ⟨hplace, hstarted⟩ := h.started registry hline.left
  refine ⟨_, hstarted, rfl, ?_⟩
  have hindent : Placement.indent (.entry 0) visit.input.line = 0 := rfl
  rw [State.settled]
  simp only [ready, hplace, hindent, State.writeAt, hline.left, State.write, OutLine.ofTopItem,
    if_true]
  rfl

end Visit

/-! ### The lower document -/

theorem displaced_first {state : State} (h : state.Restarts) {input : InputLine}
    (hline : input.line.IsTopItem) (down : Nat) {rest rest' : List InputLine}
    (hrest : InputLine.nextStructural? rest' = InputLine.nextStructural? rest) :
    State.DisplacedResult { down }
      (.underItem input down (insertAbove state.written (state.agenda.map Prod.snd)) state.tally)
      (State.step {} registry input rest)
      (state.step registry (State.inputElsewhere { down } input) rest') := by
  let visit : Visit := ⟨{}, input, rest⟩
  let visit' : Visit := ⟨state, State.inputElsewhere { down } input, rest'⟩
  obtain ⟨recorded, hstarted, hrecorded, hsettled⟩ :=
    @Visit.settled_top visit registry State.restarts_initial hline
  obtain ⟨recorded', hstarted', hrecorded', hsettled'⟩ :=
    @Visit.settled_top visit' registry h hline
  have hplacement : visit'.placement registry = visit.placement registry :=
    (h.started registry hline.left).1.trans
      (State.restarts_initial.started registry hline.left).1.symm
  have hopened : visit'.opened? registry = visit.opened? registry := by
    have hline' : visit'.input.line = visit.input.line := rfl
    have hbelow : InputLine.nextStructural? visit'.rest = InputLine.nextStructural? visit.rest :=
      hrest
    rw [Visit.opened?, Visit.opened?, ← hrecorded, ← hrecorded', hplacement, hline', hbelow]
    exact State.opening?_congr (hstarted'.stack.trans hstarted.stack.symm)
      (hstarted'.root.trans hstarted.root.symm) _ _ _ _
  have hdisplaced : ((visit.ready registry).settled visit.input).Displaced { down }
      (.underItem input down (insertAbove state.written (state.agenda.map Prod.snd)) state.tally)
      ((visit'.ready registry).settled visit'.input) := by
    rw [hsettled, hsettled']
    exact hstarted.displaced hstarted' _ down
  have hstep := @Visit.step_top visit registry State.restarts_initial hline
  have hstep' := @Visit.step_top visit' registry h hline
  rw [hopened] at hstep'
  change State.DisplacedResult _ _ (visit.state.step registry visit.input visit.rest)
    (visit'.state.step registry visit'.input visit'.rest)
  rw [hstep, hstep']
  cases hframe : visit.opened? registry with
  | none => exact .ok hdisplaced
  | some frame =>
    obtain ⟨hentry, hrelocations⟩ := (State.opens_of_opening? hframe).fresh
    have hopen := hdisplaced.openFrame (.inl rfl) frame
    rw [Frame.displaceBy_zero hentry hrelocations] at hopen
    exact hopen

theorem displaced_lower {state : State} (h : state.Restarts) {raw : RawLine} {lines : List RawLine}
    (hline : (Line.ofText raw.body).IsTopItem) (down : Nat) :
    ∃ input : InputLine, State.DisplacedResult { down }
      (.underItem input down (insertAbove state.written (state.agenda.map Prod.snd)) state.tally)
      (steps registry {} (InputLine.ofLines 1 (raw :: lines)))
      (steps registry state (InputLine.ofLines (1 + down) (raw :: lines))) := by
  refine ⟨⟨1, Line.ofText raw.body, raw.ending⟩, ?_⟩
  have hahead : InputLine.nextStructural? (InputLine.ofLines (1 + down + 1) lines) =
      InputLine.nextStructural? (InputLine.ofLines 2 lines) := by
    rw [InputLine.nextStructural?_ofLines, InputLine.nextStructural?_ofLines]
  have hfirst := @displaced_first registry _ h ⟨1, Line.ofText raw.body, raw.ending⟩ hline down _ _
    hahead
  have hnumber : State.inputElsewhere { down } ⟨1, Line.ofText raw.body, raw.ending⟩ =
      ⟨1 + down, Line.ofText raw.body, raw.ending⟩ := rfl
  rw [hnumber] at hfirst
  rw [InputLine.ofLines, InputLine.ofLines, steps, steps]
  generalize State.step {} registry _ _ = result at hfirst ⊢
  generalize state.step registry _ _ = result' at hfirst ⊢
  cases hfirst with
  | error hfault => exact .error hfault
  | ok hdisplaced =>
    have hrest := @displaced_steps _ _ registry _ rfl (InputLine.ofLines 2 lines)
      (fun _ hinput => InputLine.isRead_of_mem_ofLines hinput) _ hdisplaced
    rw [map_inputElsewhere_ofLines, Nat.add_right_comm 1 1 down] at hrest
    exact hrest

/-! ### Both documents -/

/-- `pass` does what `upper` and `lower` do, one below the other, where `final` is the state at the
end of the upper document. -/
structure Joins (final : State) (upper lower pass : Pass) : Prop where
  lines : ∃ lines, final.Regroups upper.lines lines ∧
    pass.lines = lines ++ lower.lines.map (OutLine.renumber upper.inputLines)
  reindented : pass.stats.reindented = upper.stats.reindented + lower.stats.reindented
  relocated : pass.stats.relocated = upper.stats.relocated + lower.stats.relocated

theorem error_run_iff {text : Text} :
    (∃ failure, run registry text = .error failure) ↔
      ∃ failure, steps registry {} (InputLine.ofLines 1 text.splitLines) = .error failure := by
  cases hsteps : steps registry {} (InputLine.ofLines 1 text.splitLines) with
  | ok final =>
    rw [run_of_steps hsteps]
    constructor
    · rintro ⟨_, herror⟩
      cases herror
    · rintro ⟨_, herror⟩
      cases herror
  | error failure =>
    simp only [run, runLines, hsteps]
    exact ⟨fun _ => ⟨failure, rfl⟩, fun _ => ⟨failure, rfl⟩⟩

theorem State.HasTopItem.exists_owner {state : State} (h : state.HasTopItem) :
    ∃ item, state.owner? = some item := by
  obtain ⟨item, hitem⟩ := h.root.exists_item
  rw [State.owner?, hitem]
  cases state.stack.ownerItem? with
  | none => exact ⟨item, rfl⟩
  | some owner => exact ⟨owner, rfl⟩

theorem joins_of_steps {upper lower : Text} {final state state' : State} {input : InputLine}
    (horder : final.InOrder) (htop : final.HasTopItem)
    (hupper : steps registry {} (InputLine.ofLines 1 upper.splitLines) = .ok final)
    (hlower : steps registry {} (InputLine.ofLines 1 lower.splitLines) = .ok state)
    (hboth : steps registry {} (InputLine.ofLines 1 (upper ++ lower).splitLines) = .ok state')
    (h : state.Displaced { down := upper.splitLines.length }
      (.underItem input upper.splitLines.length
        (insertAbove final.written (final.agenda.map Prod.snd)) final.tally) state')
    {passUpper passLower : Pass} (hrunUpper : run registry upper = .ok passUpper)
    (hrunLower : run registry lower = .ok passLower) :
    ∃ pass, run registry (upper ++ lower) = .ok pass ∧ Joins final passUpper passLower pass := by
  obtain ⟨item, howner⟩ := htop.exists_owner
  have hunwound := h.unwind
  obtain ⟨lines, hwritten, hwritten'⟩ := hunwound.written
  rw [run_of_steps hupper] at hrunUpper
  rw [run_of_steps hlower] at hrunLower
  cases hrunUpper
  cases hrunLower
  refine ⟨_, run_of_steps hboth,
    ⟨(insertAbove final.written (final.agenda.map Prod.snd)).reverse, ?_, ?_⟩, ?_, ?_⟩
  · rw [State.insertAbove_unwind]
    exact (State.regroups_agenda horder howner).insertAbove final.written
  · change (unwind state').written.reverse = _ ++ (unwind state).written.reverse.map _
    rw [hwritten, hwritten']
    simp [Ground.underItem]
  · change (unwind state').tally.1 = (unwind final).stats.reindented + (unwind state).tally.1
    rw [State.stats_unwind, (hunwound.reindented _ rfl).2, Nat.add_comm]
    rfl
  · change (unwind state').tally.2 = (unwind final).stats.relocated + (unwind state).tally.2
    rw [State.stats_unwind, hunwound.relocated, Nat.add_comm]
    rfl

/-- Where all that stands at the left edge are items, the items above a document's first one have no
part in what a pass does with it, nor it in what the pass does with them. -/
theorem run_append (extra : RegistryExtension) {upper lower : Text}
    (hfeed : upper.getLast? = some '\n')
    (hfirst : ∃ first, (outside none upper.splitLines).head? = some first ∧ first.IsTopItem)
    (hedge : ∀ line ∈ outside none upper.splitLines, line.ItemAtEdge)
    (hitem : ∃ raw, lower.splitLines.head? = some raw ∧ (Line.ofText raw.body).IsTopItem) :
    ((∃ failure, run (.extended extra) (upper ++ lower) = .error failure) ↔
      (∃ failure, run (.extended extra) upper = .error failure) ∨
        ∃ failure, run (.extended extra) lower = .error failure) ∧
    ∀ passUpper passLower, run (.extended extra) upper = .ok passUpper →
      run (.extended extra) lower = .ok passLower →
      ∃ final pass, steps (.extended extra) {} (InputLine.ofLines 1 upper.splitLines) = .ok final ∧
        run (.extended extra) (upper ++ lower) = .ok pass ∧
        Joins final passUpper passLower pass := by
  obtain ⟨raw, hraw, htop⟩ := hitem
  obtain ⟨lines, hlines⟩ := List.head?_eq_some_iff.1 hraw
  have habove : State.AboveTop none upper.splitLines {} :=
    ⟨rfl, hedge, State.offEdge_initial, .inr ⟨⟨rfl, rfl, rfl, rfl⟩, hfirst⟩⟩
  have hbelow : InputLine.nextStructural?
      (InputLine.ofLines (1 + upper.splitLines.length) lower.splitLines) =
        some (Line.ofText raw.body) := by
    rw [hlines, InputLine.ofLines]
    exact InputLine.nextStructural?_cons (Line.isStructural_of_isItem htop.item) _
  obtain ⟨hsame, hfinal⟩ := @stepsAbove_top (.extended extra) _ _ _ habove _ htop _ hbelow 1
  have hboth := @steps_append (.extended extra) {}
    (InputLine.ofLines 1 upper.splitLines)
    (InputLine.ofLines (1 + upper.splitLines.length) lower.splitLines)
  rw [hsame, ← InputLine.ofLines_append, ← Text.splitLines_append hfeed] at hboth
  rw [error_run_iff, error_run_iff, error_run_iff, hboth]
  cases hupper : steps (.extended extra) {} (InputLine.ofLines 1 upper.splitLines) with
  | error failure =>
    refine ⟨⟨fun _ => .inl ⟨failure, rfl⟩, fun _ => ⟨failure, rfl⟩⟩, fun passUpper _ hrun => ?_⟩
    simp only [run, runLines, hupper] at hrun
    cases hrun
  | ok final =>
    obtain ⟨hoff, hlast⟩ := hfinal final hupper
    obtain ⟨input, hlower⟩ := @displaced_lower (.extended extra) _ ⟨hoff, .inl hlast⟩ raw lines htop
      upper.splitLines.length
    rw [← hlines] at hlower
    rw [hupper] at hboth
    simp only at hboth ⊢
    generalize hsteps : steps (.extended extra) {} (InputLine.ofLines 1 lower.splitLines) = result
      at hlower ⊢
    generalize steps (.extended extra) final _ = result' at hlower hboth ⊢
    cases hlower with
    | error hfault =>
      refine ⟨⟨fun _ => .inr ⟨_, rfl⟩, fun _ => ⟨_, rfl⟩⟩, fun _ passLower _ hrun => ?_⟩
      simp only [run, runLines, hsteps] at hrun
      cases hrun
    | ok hdisplaced =>
      refine ⟨⟨fun herror => ?_, fun herror => ?_⟩,
        fun passUpper passLower hrunUpper hrunLower => ?_⟩
      · obtain ⟨_, herror⟩ := herror
        cases herror
      · rcases herror with ⟨_, herror⟩ | ⟨_, herror⟩
        · cases herror
        · cases herror
      · have horder := inOrder_steps (Registry.confined_extended extra)
          (fun _ hinput => InputLine.isRead_of_mem_ofLines hinput) .initial hupper
        obtain ⟨pass, hrun, hjoins⟩ := joins_of_steps horder hlast hupper hsteps hboth hdisplaced
          hrunUpper hrunLower
        exact ⟨final, pass, rfl, hrun, hjoins⟩

/-- A task with two attributes to be lifted, the second of which waits at the end. -/
def liftedTwice : Text :=
  "- tags:\n    - x\n    retries: 3\n  shell:\n    cmd: y\n    register: r\n".toList

/-- A task below it. -/
def nextTask : Text :=
  "- name: b\n".toList

/-- Above the second task, the attributes stand in the order of the document; at its end, what was
lifted last is written first. -/
theorem run_append_liftedTwice :
    ∃ upper lower final pass, run (.extended {}) liftedTwice = .ok upper ∧
      run (.extended {}) nextTask = .ok lower ∧
      run (.extended {}) (liftedTwice ++ nextTask) = .ok pass ∧ Joins final upper lower pass ∧
      upper.lines.map OutLine.number = [1, 2, 4, 5, 6, 3] ∧
      pass.lines.map OutLine.number = [1, 2, 4, 5, 3, 6, 7] := by
  have hedge : ∀ line ∈ outside none liftedTwice.splitLines,
      line.indent = 0 → line.isItem = true := by decide +kernel
  obtain ⟨_, hjoins⟩ := @run_append {} liftedTwice nextTask (by decide +kernel)
    ⟨Line.ofText "- tags:".toList, by decide +kernel, by decide +kernel, by decide +kernel⟩ hedge
    ⟨⟨"- name: b".toList, .lf⟩, by decide +kernel, by decide +kernel, by decide +kernel⟩
  have hupper : (run (.extended {}) liftedTwice).toOption.map
      (fun pass => pass.lines.map OutLine.number) = some [1, 2, 4, 5, 6, 3] := by decide +kernel
  have hlower : (run (.extended {}) nextTask).toOption.isSome = true := by decide +kernel
  have hboth : (run (.extended {}) (liftedTwice ++ nextTask)).toOption.map
      (fun pass => pass.lines.map OutLine.number) = some [1, 2, 4, 5, 3, 6, 7] := by
    decide +kernel
  cases hrun : run (.extended {}) liftedTwice with
  | error failure =>
    rw [hrun] at hupper
    cases hupper
  | ok upper =>
    cases hrun' : run (.extended {}) nextTask with
    | error failure =>
      rw [hrun'] at hlower
      cases hlower
    | ok lower =>
      obtain ⟨final, pass, _, hpass, hjoined⟩ := hjoins upper lower hrun hrun'
      rw [hrun] at hupper
      rw [hpass] at hboth
      exact ⟨upper, lower, final, pass, rfl, rfl, hpass, hjoined, Option.some.inj hupper,
        Option.some.inj hboth⟩

end Pass
end Reindent
