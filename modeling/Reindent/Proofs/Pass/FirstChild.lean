import Reindent.Proofs.Pass.Lookahead
import Reindent.Proofs.Pass.Order
import Reindent.Proofs.Pass.Siblings

/-!
# Reindent.Proofs.Pass.FirstChild

Frames that a line opens because of the next line of the structure.

* `Frame.Expects`       — what is said about that line when the frame is opened.
* `Opens.expects`       — lists of keys without a role, and modules with arguments at or left of
  them, are opened for a line that they expect.
* `exists_next`         — a pass comes to the next line of the structure with the frames unchanged.
* `Visit.IsFirstChild`  — the line is written as the first child of a frame.
* `expected_first_child` — the line that a frame was opened for is its first child.
-/

namespace Reindent

/-- The frame has no children yet, and would take `line` for the first: the line does not end the
frame, is not stranded in it, and is placed among the children. -/
structure Frame.Expects (registry : Registry) (frame : Frame) (line : Line) : Prop where
  leaf : frame.role.isLeaf = true
  first : frame.scope.entry = none
  stays : frame.closesAt registry line = false
  belongs : line.isInlinePair = true → ∀ key, line.key = some key →
    registry.isStranded key frame.role frame.key = false
  place_eq : place frame line = .entry frame.childIndent

namespace Pass

variable {registry : Registry}

namespace State

variable {state : State} {line below : Line} {column base : Nat}

theorem expects_list (hlists : state.listsUnder registry column base below = true) (key : Text) :
    Frame.Expects registry
      { role := .listValue, key, inputIndent := min column below.indent, baseIndent := base }
      below := by
  have hitem : below.isItem = true := by
    simp only [listsUnder, Bool.and_eq_true] at hlists
    exact hlists.1
  refine ⟨rfl, rfl, ?_, ?_, ?_⟩
  · have hle : ¬ below.indent < min column below.indent := by omega
    simp [Frame.closesAt, hle, hitem, Role.holdsItems]
  · intro hpair
    simp only [Line.isInlinePair, Line.isItem, beq_iff_eq, Bool.and_eq_true] at hpair hitem
    rw [hitem] at hpair
    cases hpair.1.1.1
  · exact (Frame.Places.firstItem (by simp [Frame.takesItem, hitem, Role.holdsItems]) rfl).place_eq

theorem not_isStranded_of_not_endsModuleArgs {key : Text}
    (h : registry.endsModuleArgs key = false) (role : Role) (origin : Text) :
    registry.isStranded key role origin = false := by
  simp only [Registry.endsModuleArgs, Registry.isAttribute, Bool.or_eq_false_iff,
    Option.isSome_eq_false_iff, Option.isNone_iff_eq_none] at h
  rw [Registry.isStranded, h.1.2]

theorem expects_inline (hcontinues : state.continuesInlineArgs registry column below = true)
    (key : Text) :
    Frame.Expects registry
      (Frame.withInlineArgs { role := .moduleArgs, key, inputIndent := column, baseIndent := base }
        below.indent)
      below := by
  simp only [continuesInlineArgs, Bool.and_eq_true, Bool.not_eq_true'] at hcontinues
  obtain ⟨⟨⟨hitem, _⟩, hkey⟩, _⟩ := hcontinues
  obtain ⟨argument, hargument, hends⟩ := (Option.any_eq_true _ _).1 hkey
  rw [Bool.not_eq_true'] at hends
  refine ⟨rfl, rfl, ?_, ?_, ?_⟩
  · simp [Frame.closesAt, Frame.withInlineArgs, hitem, hargument, hends]
  · intro _ other hother
    obtain rfl : argument = other := Option.some.inj (hargument.symm.trans hother)
    exact not_isStranded_of_not_endsModuleArgs hends _ _
  · exact (Frame.Places.child (by simp [Frame.takesItem, hitem]) rfl (Nat.le_refl _)).place_eq

/-- A frame that owes its role, or the column of its children, to the line below expects that
line. -/
theorem Opens.expects {placement : Placement} {indent : Nat} {ahead : Option Line} {frame : Frame}
    (h : state.Opens registry line placement indent ahead frame)
    (hforced : registry.roleOf? frame.key = none ∨ frame.inlineArgs = true) :
    ∃ below, ahead = some below ∧ frame.Expects registry below := by
  cases h with
  | role _ _ hrole =>
    rcases hforced with hnone | hinline
    · rw [hrole] at hnone
      cases hnone
    · cases hinline
  | list _ _ hahead hlists => exact ⟨_, hahead, expects_list hlists _⟩
  | inline _ _ _ hahead hcontinues => exact ⟨_, hahead, expects_inline hcontinues _⟩

end State

/-! ### The next line of the structure -/

theorem exists_next {state : State} {inputs : List InputLine} {line : Line}
    (hbody : state.body = none) (hnext : InputLine.nextStructural? inputs = some line) :
    ∃ between child below, trail registry state inputs = between ++ child :: below ∧
      (∀ visit ∈ between, visit.isStructural = false) ∧ child.input.line = line ∧
      child.isStructural = true ∧ child.state.stack = state.stack := by
  induction inputs generalizing state with
  | nil => cases hnext
  | cons input rest ih =>
    have htext : Visit.isText ⟨state, input, rest⟩ = false := by
      rw [Visit.isText, hbody, Option.any_none]
    cases hline : input.line.isStructural with
    | true =>
      rw [InputLine.nextStructural?_cons hline, Option.some.injEq] at hnext
      exact ⟨[], ⟨state, input, rest⟩, _, rfl, fun _ hmem => absurd hmem List.not_mem_nil, hnext,
        Visit.isStructural_iff.2 ⟨htext, hline⟩, rfl⟩
    | false =>
      rw [InputLine.nextStructural?_of_loose hline] at hnext
      have hstep : state.step registry input rest =
          .ok ({ state with body := none }.passThrough input) :=
        (@Visit.step_of_not_isText registry ⟨state, input, rest⟩ htext).trans
          (if_neg (by rw [hline]; exact Bool.false_ne_true))
      have hpassed : ({ state with body := none }.passThrough input).body = none :=
        State.body_passThrough _ _
      obtain ⟨between, child, below, htrail, hbetween, hchild, hstructural, hstack⟩ :=
        ih hpassed hnext
      refine ⟨⟨state, input, rest⟩ :: between, child, below, ?_, ?_, hchild, hstructural, ?_⟩
      · rw [trail, hstep]
        exact congrArg _ htrail
      · intro visit hvisit
        rcases List.mem_cons.1 hvisit with rfl | hvisit
        · rw [Visit.isStructural, hline, Bool.and_false]
        · exact hbetween visit hvisit
      · rw [hstack, State.stack_passThrough]

namespace Visit

/-- The line is written as the first child of `frame`, two columns right of it. -/
structure IsFirstChild (registry : Registry) (frame : Frame) (child : Visit) : Prop where
  /-- The line does not end the frame. -/
  stays : frame.closesAt registry child.input.line = false
  /-- It is not lifted out of the frame. -/
  placed : child.isPlaced registry = true
  around : child.frame? registry = some frame
  first : frame.scope.entry = none
  placement : child.placement registry = .entry (frame.baseIndent + 2)

variable {visit child : Visit} {frame : Frame} {rest : Stack}

theorem isFirstChild_of_expects (hstructural : child.isStructural = true)
    (hstack : child.state.stack = frame :: rest)
    (hexpects : frame.Expects registry child.input.line) :
    child.IsFirstChild registry frame ∧ (child.ready registry).stack = frame :: rest := by
  have hready : (child.ready registry).stack = frame :: rest := by
    have hhead : ({ child.state with body := none } : State).stack.head? = some frame := by
      rw [hstack, List.head?_cons]
    rw [ready, State.closeFor_of_not_closesAt hhead hexpects.stays]
    exact hstack
  have hframe : child.frame? registry = some frame := by
    rw [frame?, hready, List.head?_cons]
  have hlifted : child.isLifted registry = false := by
    rw [Bool.eq_false_iff]
    intro hlifted
    obtain ⟨key, frame', hframe', hkey, hpair, hstranded⟩ :=
      exists_stranded (isRelocated_iff.2 ⟨hstructural, hlifted⟩)
    obtain rfl : frame = frame' := Option.some.inj (hframe.symm.trans hframe')
    rw [hexpects.belongs hpair key hkey] at hstranded
    cases hstranded
  refine ⟨⟨hexpects.stays, isPlaced_iff.2 ⟨hstructural, hlifted⟩, hframe, hexpects.first, ?_⟩,
    hready⟩
  rw [placement_eq_place hframe, hexpects.place_eq, Frame.childIndent]

theorem step_of_expected (hread : child.input.line.IsRead) (hstructural : child.isStructural = true)
    (hstack : child.state.stack = frame :: rest)
    (hexpects : frame.Expects registry child.input.line) :
    ∃ next, child.state.step registry child.input child.rest = .ok next ∧
      next.stack = frame.recorded child.input.line :: rest ∧
      next.written.head? = some (child.out registry) := by
  obtain ⟨hfirst, hready⟩ := isFirstChild_of_expects hstructural hstack hexpects
  have hrecorded : ((child.ready registry).record child.input.line
      (child.placement registry)).stack = frame.recorded child.input.line :: rest :=
    State.stack_record_cons _ hready
  have hnone : child.opened? registry = none := by
    cases hopened : child.opened? registry with
    | none => rfl
    | some inner =>
      have hleaf := State.not_isLeaf_of_opening? hopened
        (by rw [hrecorded, List.head?_cons] : _ = some (frame.recorded child.input.line))
      rw [Frame.recorded, hexpects.leaf] at hleaf
      cases hleaf
  obtain ⟨_, hsettle⟩ := step_of_isPlaced hfirst.placed
  obtain ⟨events, hstep⟩ := step_eq_opened hfirst.placed
  rw [hnone] at hstep
  have hwritten := State.written_settle hread (hsettle.symm.trans hstep)
  refine ⟨_, hstep, (stack_settled registry child events).trans hrecorded, ?_⟩
  rw [hwritten, out_of_placed hfirst.placed]
  rfl

theorem stack_of_opened? (hread : visit.input.line.IsRead)
    (hplaced : visit.isPlaced registry = true) (hopened : visit.opened? registry = some frame)
    {next : State} (hstep : visit.state.step registry visit.input visit.rest = .ok next) :
    next.stack = frame :: (visit.made registry).stack ∧ next.body = none := by
  obtain ⟨events, hsettled⟩ := step_eq_opened hplaced
  rw [hstep, hopened] at hsettled
  have hscalar := (State.opens_of_opening? hopened).not_blockScalar hread
  refine ⟨?_, ?_⟩
  · rw [State.stack_openFrame hsettled.symm, stack_settled, made_of_isPlaced hplaced]
  · rw [State.body_openFrame hsettled.symm, State.settled, if_neg (by simp [hscalar])]

end Visit

variable {text : Text} {before after : List Visit} {visit : Visit} {frame : Frame} {next : State}

/-- A frame that a key without a role opens, or that a module opens for arguments at or left of it,
is opened for the next line of the structure. The pass comes to that line with the frame still
empty, and writes it as its first child, wherever it stood. -/
theorem expected_first_child (htrail : trailOf registry text = before ++ visit :: after)
    (hplaced : visit.isPlaced registry = true) (hopened : visit.opened? registry = some frame)
    (hstep : visit.state.step registry visit.input visit.rest = .ok next)
    (hforced : registry.roleOf? frame.key = none ∨ frame.inlineArgs = true) :
    ∃ between child below last, after = between ++ child :: below ∧
      (∀ other ∈ between, other.isStructural = false) ∧
      InputLine.nextStructural? visit.rest = some child.input.line ∧
      child.IsFirstChild registry frame ∧ child.depth registry = visit.depth registry + 1 ∧
      child.state.step registry child.input child.rest = .ok last ∧
      last.stack.head? = some (frame.recorded child.input.line) ∧
      last.written.head? = some (child.out registry) ∧
      ∀ pass, run registry text = .ok pass →
        pass.columnOf? child.input.number = some (frame.baseIndent + 2) := by
  have hreads : ∀ other ∈ trailOf registry text, other.input.line.IsRead :=
    fun other hother => InputLine.isRead_of_mem_ofLines (input_of_mem_trail hother)
  have hread : visit.input.line.IsRead := hreads visit (by simp [htrail])
  obtain ⟨hstack, hbody⟩ := Visit.stack_of_opened? hread hplaced hopened hstep
  obtain ⟨below, hahead, hexpects⟩ := (State.opens_of_opening? hopened).expects hforced
  obtain ⟨between, child, rest, hafter, hbetween, rfl, hstructural, hsame⟩ :=
    @exists_next registry _ _ _ hbody hahead
  have hbelow := below_of_trail htrail
  rw [hstep] at hbelow
  have hsplit : after = between ++ child :: rest := hbelow.trans hafter
  have hchild : child ∈ trailOf registry text := by
    rw [htrail, hsplit]
    simp
  obtain ⟨hfirst, hready⟩ :=
    Visit.isFirstChild_of_expects hstructural (hsame.trans hstack) hexpects
  obtain ⟨last, hlast, hrecorded, hwritten⟩ :=
    Visit.step_of_expected (hreads child hchild) hstructural (hsame.trans hstack) hexpects
  refine ⟨between, child, rest, last, hsplit, hbetween, hahead, hfirst, ?_, hlast, ?_, hwritten, ?_⟩
  · rw [Visit.depth, hready, List.length_cons,
      Visit.stack_made_length (Visit.isPlaced_iff.1 hplaced).1]
  · rw [hrecorded, List.head?_cons]
  · intro pass hrun
    rw [columnOf?_visit hrun hchild hfirst.placed, hfirst.placement, Placement.indent]

/-- A module whose argument stands left of it, behind a blank line. -/
def argumentLeftOfModule : Text :=
  "tasks:\n- name: a\n  debug:\n\n msg: x\n".toList

theorem expected_first_child_argumentLeftOfModule :
    ∃ (pass : Pass) (module child : Visit) (frame : Frame),
      run .standard argumentLeftOfModule = .ok pass ∧ module.isPlaced .standard = true ∧
        module.opened? .standard = some frame ∧ frame.inlineArgs = true ∧
        module.input.line.indent = 2 ∧ frame.baseIndent = 4 ∧
        child.input.line.indent = 1 ∧ child.IsFirstChild .standard frame ∧
        pass.columnOf? child.input.number = some 6 := by
  have hok : (run .standard argumentLeftOfModule).toOption.isSome = true := by decide +kernel
  have hfacts : ofFive (fun _ _ module _ _ =>
      module.isPlaced .standard && module.input.line.indent == 2 &&
        (module.opened? .standard).any (fun frame => frame.inlineArgs && frame.baseIndent == 4) &&
        (InputLine.nextStructural? module.rest).any fun argument => argument.indent == 1)
      (trailOf .standard argumentLeftOfModule) = true := by decide +kernel
  obtain ⟨play, task, module, blank, argument, htrail, hfacts⟩ := exists_of_ofFive hfacts
  simp only [Bool.and_eq_true, beq_iff_eq, Option.any_eq_true] at hfacts
  obtain ⟨⟨⟨hplaced, hcolumn⟩, frame, hopened, hinline, hbase⟩, below, hbelow, hleft⟩ := hfacts
  have hsplit : trailOf .standard argumentLeftOfModule =
      [play, task] ++ module :: [blank, argument] := htrail
  have hstep := @step_of_trail .standard _ _ _ _ module blank hsplit
  obtain ⟨_, child, _, _, _, _, hnext, hfirst, _, _, _, _, hwritten⟩ :=
    @expected_first_child .standard _ _ _ module frame _ hsplit hplaced hopened hstep (.inr hinline)
  have hargument : child.input.line.indent = 1 := by
    rw [← hleft, Option.some.inj (hnext.symm.trans hbelow)]
  cases hrun : run .standard argumentLeftOfModule with
  | error failure =>
    rw [hrun] at hok
    cases hok
  | ok pass =>
    have hsix := hwritten pass hrun
    rw [hbase] at hsix
    exact ⟨pass, module, child, frame, rfl, hplaced, hopened, hinline, hcolumn, hbase, hargument,
      hfirst, hsix⟩

end Pass
end Reindent
