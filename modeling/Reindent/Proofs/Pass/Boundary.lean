import Reindent.Proofs.Frame.Boundary
import Reindent.Proofs.Pass.Failure
import Reindent.Proofs.Pass.Opening

/-!
# Reindent.Proofs.Pass.Boundary

The open frames of a pass, and the one rule that ends them.

* `State.InOrder` — every frame stands inside those around it, and lines wait where they may.
* `InOrder.step`  — a step keeps that, and so does the end of the document.
* `map_cleared_closeFor` — ending frames one by one, the innermost first, ends all that the line
  ends.
* `Pass.Reaches`  — the states that a pass goes through.
* `stack_layered` — in each of them the frames are in order, and a line ends exactly the frames
  that the boundary rule names.
-/

namespace Reindent

variable {registry : Registry}

theorem Frame.Inside.trans {inner middle outer : Frame} (h : inner.Inside middle)
    (h' : middle.Inside outer) : inner.Inside outer :=
  ⟨Nat.lt_trans h'.base h.base, Nat.le_trans h'.input h.input,
    fun hinline => Nat.lt_of_le_of_lt h'.input (h.inline hinline), h'.leaf⟩

theorem Line.payloadOffset_pos {line : Line} (hread : line.IsRead) (hitem : line.isItem = true) :
    0 < line.payloadOffset := by
  obtain ⟨rest, hcontent, _⟩ := hread.content_of_isItem hitem
  have hwidth := Text.width_eq_add_trimStart rest
  have hdash : ('-' : Char).utf8Size = 1 := by decide
  rw [payloadOffset, payload?_eq hitem hcontent, hcontent]
  simp only [Text.width_cons, Option.getD_some, hdash]
  omega

namespace Stack

/-- A line ends the innermost frames first, so that those which it ends are the ones above the
first that it does not end. -/
theorem dropWhile_closesAt {stack : Stack} {line : Line} (h : stack.Pairwise Frame.Inside)
    (htidy : ∀ frame ∈ stack, frame.Tidy) :
    stack.dropWhile (fun frame => frame.closesAt registry line) =
      stack.filter fun frame => !frame.closesAt registry line := by
  induction stack with
  | nil => rfl
  | cons frame rest ih =>
    rw [List.pairwise_cons] at h
    cases hcloses : frame.closesAt registry line with
    | true =>
      rw [List.dropWhile_cons_of_pos (by exact hcloses),
        List.filter_cons_of_neg (by simp [hcloses])]
      exact ih h.2 fun f hf => htidy f (List.mem_cons_of_mem _ hf)
    | false =>
      rw [List.dropWhile_cons_of_neg (by simp [hcloses]), eq_comm, List.filter_eq_self]
      intro outer houter
      rw [Bool.not_eq_true']
      rcases List.mem_cons.1 houter with rfl | houter
      · exact hcloses
      · exact (h.1 outer houter).not_closesAt
          (htidy outer (List.mem_cons_of_mem _ houter)).inline hcloses

theorem pairwise_inside_cleared {stack : Stack} :
    (stack.map Frame.cleared).Pairwise Frame.Inside ↔ stack.Pairwise Frame.Inside := by
  rw [List.pairwise_map]
  have hiff : ∀ inner outer : Frame, inner.cleared.Inside outer.cleared ↔ inner.Inside outer :=
    fun _ _ => ⟨fun h => ⟨h.base, h.input, h.inline, h.leaf⟩,
      fun h => ⟨h.base, h.input, h.inline, h.leaf⟩⟩
  simp only [hiff]

theorem tidy_handInnermost? {lines : List Relocation} {stack stack' : Stack}
    (htidy : ∀ frame ∈ stack, frame.Tidy) (hleaf : ∀ frame ∈ stack, frame.role.isLeaf = false)
    (h : handInnermost? lines stack = some stack') : ∀ frame ∈ stack', frame.Tidy := by
  induction stack generalizing stack' with
  | nil => cases h
  | cons frame rest ih =>
    obtain ⟨htop, hrest⟩ := List.forall_mem_cons.1 htidy
    obtain ⟨hinner, houter⟩ := List.forall_mem_cons.1 hleaf
    by_cases hitem : frame.scope.item?.isSome
    · simp only [handInnermost?, hitem, if_true, Option.some.injEq] at h
      subst h
      refine List.forall_mem_cons.2 ⟨⟨?_, htop.relocations, ?_, htop.inline⟩, hrest⟩
      · exact Scope.tidy_append hitem lines
      · intro hisLeaf
        rw [hinner] at hisLeaf
        cases hisLeaf
    · simp only [handInnermost?, hitem, Bool.false_eq_true, if_false] at h
      obtain ⟨rest', hrest', rfl⟩ := Option.map_eq_some_iff.1 h
      exact List.forall_mem_cons.2 ⟨htop, ih hrest houter hrest'⟩

end Stack

namespace Pass
namespace State

variable {state next : State} {line : Line} {frame : Frame}

/-! ### Frames without what waits in them -/

theorem map_cleared_handOver (state : State) (lines : List Relocation) :
    (state.handOver lines).stack.map Frame.cleared = state.stack.map Frame.cleared := by
  simp only [handOver]
  split
  · rename_i stack hstack
    exact Stack.map_cleared_handInnermost? hstack
  · split <;> rfl

theorem map_cleared_closeTop (state : State) (atEnd : Bool) :
    (state.closeTop atEnd).stack.map Frame.cleared = (state.stack.map Frame.cleared).tail := by
  cases hstack : state.stack with
  | nil => simp [closeTop, hstack]
  | cons frame rest =>
    simp only [closeTop, hstack, release]
    split
    · simp
    · split
      · simp [log]
      · rw [map_cleared_handOver]
        simp

theorem map_cleared_closeUpTo (registry : Registry) (line : Line) {count : Nat} {state : State}
    (hcount : state.stack.length ≤ count) :
    (closeUpTo registry line count state).stack.map Frame.cleared =
      (state.stack.map Frame.cleared).dropWhile fun frame => frame.closesAt registry line := by
  induction count generalizing state with
  | zero =>
    rw [closeUpTo, List.length_eq_zero_iff.1 (Nat.le_zero.1 hcount)]
    rfl
  | succ count ih =>
    cases hstack : state.stack with
    | nil => simp [closeUpTo, hstack]
    | cons frame rest =>
      simp only [closeUpTo, hstack, List.map_cons]
      cases hcloses : frame.closesAt registry line with
      | true =>
        rw [List.dropWhile_cons_of_pos (by rw [Frame.closesAt_cleared, hcloses]), if_pos rfl, ih,
          map_cleared_closeTop, hstack, List.map_cons, List.tail_cons]
        rw [closeTop_stack_length]
        omega
      | false =>
        rw [List.dropWhile_cons_of_neg (by rw [Frame.closesAt_cleared, hcloses]; simp),
          if_neg Bool.false_ne_true, hstack, List.map_cons]

theorem map_cleared_closeFor (state : State) (registry : Registry) (line : Line) :
    (state.closeFor registry line).stack.map Frame.cleared =
      (state.stack.map Frame.cleared).dropWhile fun frame => frame.closesAt registry line :=
  map_cleared_closeUpTo registry line (Nat.le_refl _)

theorem head_closeFor_not_closesAt
    (h : (state.closeFor registry line).stack.head? = some frame) :
    frame.closesAt registry line = false := by
  have hcleared := congrArg List.head? (map_cleared_closeFor state registry line)
  rw [List.head?_map, h, Option.map_some] at hcleared
  have hhead := List.head?_dropWhile_not (fun frame : Frame => frame.closesAt registry line)
    (state.stack.map Frame.cleared)
  rw [← hcleared] at hhead
  exact hhead

/-! ### Frames that are opened -/

variable {placement : Placement} {indent : Nat} {ahead : Option Line}

theorem Opens.tidy (h : state.Opens registry line placement indent ahead frame) :
    frame.Tidy := by
  cases h with
  | role _ _ _ =>
    refine ⟨Scope.tidy_of_waiting rfl, fun _ => rfl, fun _ => rfl, ?_⟩
    intro hinline
    cases hinline
  | list _ _ _ _ =>
    exact ⟨Scope.tidy_of_waiting rfl, fun _ => rfl, fun _ => rfl, fun _ => rfl⟩
  | inline _ _ _ _ _ =>
    exact ⟨Scope.tidy_of_waiting rfl, fun _ => rfl, fun _ => rfl, fun _ => rfl⟩

section Inside

variable {parent : Frame} (hleaf : parent.role.isLeaf = false) (htidy : parent.Tidy)
include hleaf htidy

theorem inputIndent_lt_column {column base : Nat} (hread : line.IsRead)
    (hopen : parent.closesAt registry line = false)
    (hcolumns : line.openKeyColumns? indent = some (column, base)) :
    parent.inputIndent < column := by
  rw [Frame.closesAt_eq_false_iff hleaf htidy.inline] at hopen
  simp only [Line.openKeyColumns?] at hcolumns
  split at hcolumns
  · rename_i hopens
    simp only [Line.itemOpensKey, Bool.and_eq_true] at hopens
    have hpos := Line.payloadOffset_pos hread hopens.1.1
    simp only [Option.some.injEq, Prod.mk.injEq] at hcolumns
    omega
  · split at hcolumns
    · rename_i hkey
      simp only [Option.some.injEq, Prod.mk.injEq] at hcolumns
      rcases hopen with hlt | ⟨_, hitem⟩
      · omega
      · rw [beq_iff_eq] at hkey
        simp [Line.isItem, hkey] at hitem
    · cases hcolumns

theorem not_closesAt_of_predict? (hparent : state.stack.head? = some parent) {below : Line}
    {predicted : Placement} (h : state.predict? registry below = some predicted) :
    parent.inputIndent < below.indent ∨
      below.indent = parent.inputIndent ∧ below.isItem = true := by
  simp only [predict?, hparent, Option.any_some] at h
  split at h
  · cases h
  · rename_i hopen
    exact (Frame.closesAt_eq_false_iff hleaf htidy.inline).1 (Bool.eq_false_iff.2 hopen)

/-- A frame that a line opens stands inside the frame around the line, if it stands to the right of
it in the output. -/
theorem Opens.inside (hparent : state.stack.head? = some parent)
    (h : state.Opens registry line placement indent ahead frame) (hread : line.IsRead)
    (hopen : parent.closesAt registry line = false) (hbase : parent.baseIndent < frame.baseIndent) :
    frame.Inside parent := by
  cases h with
  | role _ hcolumns _ =>
    have hcolumn := inputIndent_lt_column hleaf htidy hread hopen hcolumns
    exact ⟨hbase, Nat.le_of_lt hcolumn, fun _ => hcolumn, hleaf⟩
  | @list key column base below _ hcolumns _ hlists =>
    have hcolumn := inputIndent_lt_column hleaf htidy hread hopen hcolumns
    refine ⟨hbase, Nat.le_min.2 ⟨Nat.le_of_lt hcolumn, ?_⟩, nofun, hleaf⟩
    simp only [listsUnder, Bool.and_eq_true, Bool.or_eq_true, beq_iff_eq] at hlists
    rcases hlists.2 with hsame | hpredicted
    · omega
    · have hright := not_closesAt_of_predict? hleaf htidy hparent hpredicted
      omega
  | @inline key column base below _ _ _ _ hcontinues =>
    simp only [continuesInlineArgs, Bool.and_eq_true, Bool.not_eq_true',
      Option.any_eq_true] at hcontinues
    obtain ⟨⟨⟨hother, _⟩, _⟩, predicted, hpredicted, _⟩ := hcontinues
    have hright : parent.inputIndent < below.indent := by
      rcases not_closesAt_of_predict? hleaf htidy hparent hpredicted with hlt | ⟨_, hitem⟩
      · exact hlt
      · rw [hother] at hitem
        cases hitem
    exact ⟨hbase, Nat.le_of_lt hright, fun _ => hright, hleaf⟩

end Inside

/-! ### The order of the frames -/

/-- Every frame stands inside those around it, and lines wait where they may. -/
structure InOrder (state : State) : Prop where
  inside : state.stack.Pairwise Frame.Inside
  tidy : ∀ frame ∈ state.stack, frame.Tidy
  root : state.root.Tidy

namespace InOrder

theorem initial : InOrder {} :=
  ⟨.nil, fun _ hframe => absurd hframe List.not_mem_nil, Scope.tidy_of_waiting rfl⟩

theorem congr (h : state.InOrder) (hstack : next.stack = state.stack)
    (hroot : next.root = state.root) : next.InOrder := by
  refine ⟨?_, ?_, ?_⟩
  · rw [hstack]
    exact h.inside
  · rw [hstack]
    exact h.tidy
  · rw [hroot]
    exact h.root

theorem handOver (h : state.InOrder) (hleaf : ∀ frame ∈ state.stack, frame.role.isLeaf = false)
    (lines : List Relocation) : (state.handOver lines).InOrder := by
  have hinside : (state.handOver lines).stack.Pairwise Frame.Inside := by
    rw [← Stack.pairwise_inside_cleared, map_cleared_handOver, Stack.pairwise_inside_cleared]
    exact h.inside
  refine ⟨hinside, ?_, ?_⟩
  · simp only [State.handOver]
    split
    · rename_i stack hstack
      exact Stack.tidy_handInnermost? h.tidy hleaf hstack
    · split
      · exact h.tidy
      · exact h.tidy
  · simp only [State.handOver]
    split
    · exact h.root
    · split
      · rename_i hitem
        exact Scope.tidy_append hitem lines
      · exact h.root

theorem closeTop (h : state.InOrder) (atEnd : Bool) : (state.closeTop atEnd).InOrder := by
  cases hstack : state.stack with
  | nil =>
    simp only [State.closeTop, hstack]
    exact h
  | cons frame rest =>
    have hinside := h.inside
    have htidy := h.tidy
    rw [hstack] at hinside htidy
    rw [List.pairwise_cons] at hinside
    have hrest : ({ state with stack := rest }.flushEntry frame.scope.entry).InOrder := by
      have houter : InOrder { state with stack := rest } :=
        ⟨hinside.2, fun f hf => htidy f (List.mem_cons_of_mem _ hf), h.root⟩
      refine houter.congr (flushEntry_stack _ _) ?_
      cases frame.scope.entry <;> rfl
    simp only [State.closeTop, hstack, release]
    split
    · exact hrest
    · split
      · exact hrest.congr rfl rfl
      · refine hrest.handOver ?_ _
        rw [flushEntry_stack]
        exact fun f hf => (hinside.1 f hf).leaf

theorem closeUpTo (h : state.InOrder) (registry : Registry) (line : Line) (count : Nat) :
    (closeUpTo registry line count state).InOrder :=
  closeUpTo_keeps (fun _ h => h.closeTop false) registry line count h

theorem closeAtEnd (h : state.InOrder) (count : Nat) :
    (State.closeAtEnd count state).InOrder :=
  closeAtEnd_keeps (fun _ h => h.closeTop true) count h

theorem record (h : state.InOrder) (line : Line) :
    (state.record line (state.place line)).InOrder := by
  cases hstack : state.stack with
  | nil =>
    have hrecorded : (state.record line (state.place line)).stack = [] ∧
        (state.record line (state.place line)).root =
          (state.root.record line (state.place line)).1 := by
      simp only [State.record, State.scope, hstack, withScope]
      constructor
      · rw [flushEntry_stack]
      · cases (state.root.record line (state.place line)).2 <;> rfl
    refine ⟨?_, ?_, ?_⟩
    · rw [hrecorded.1]
      exact .nil
    · rw [hrecorded.1]
      exact fun frame hframe => absurd hframe List.not_mem_nil
    · rw [hrecorded.2]
      exact h.root.record line _
  | cons frame rest =>
    have hinside := h.inside
    have htidy := h.tidy
    rw [hstack] at hinside htidy
    rw [List.pairwise_cons] at hinside
    obtain ⟨htop, hrest⟩ := List.forall_mem_cons.1 htidy
    have hroot : (state.record line (state.place line)).root = state.root := by
      simp only [State.record, State.scope, hstack, withScope]
      cases (frame.scope.record line (state.place line)).2 <;> rfl
    refine ⟨?_, ?_, ?_⟩
    · rw [stack_record_cons line hstack, List.pairwise_cons]
      refine ⟨fun outer houter => ?_, hinside.2⟩
      obtain ⟨hbase, hinput, hinline, hleaf⟩ := hinside.1 outer houter
      exact ⟨hbase, hinput, hinline, hleaf⟩
    · rw [stack_record_cons line hstack]
      refine List.forall_mem_cons.2 ⟨⟨htop.scope.record line _, htop.relocations, ?_, htop.inline⟩,
        hrest⟩
      exact fun hleaf => Scope.waiting_record (htop.leaf hleaf) line _
    · rw [hroot]
      exact h.root

theorem liftOut (h : state.InOrder) (hleaf : ∀ frame, state.stack.head? = some frame →
    frame.role.isLeaf = true) (input : InputLine) (key : Text) :
    (state.liftOut input key).InOrder := by
  cases hstack : state.stack with
  | nil =>
    simp only [State.liftOut, hstack]
    exact h
  | cons frame rest =>
    have hinside := h.inside
    have htidy := h.tidy
    rw [hstack] at hinside htidy hleaf
    rw [List.pairwise_cons] at hinside
    obtain ⟨htop, hrest⟩ := List.forall_mem_cons.1 htidy
    have hisLeaf := hleaf frame rfl
    simp only [State.liftOut, hstack]
    refine ⟨?_, List.forall_mem_cons.2 ⟨⟨htop.scope, ?_, htop.leaf, htop.inline⟩, hrest⟩, h.root⟩
    · rw [List.pairwise_cons]
      refine ⟨fun outer houter => ?_, hinside.2⟩
      obtain ⟨hbase, hinput, hinline, hleaf⟩ := hinside.1 outer houter
      exact ⟨hbase, hinput, hinline, hleaf⟩
    · intro hother
      rw [hisLeaf] at hother
      cases hother

theorem openFrame (h : state.InOrder) (htidy : frame.Tidy)
    (hinside : ∀ parent, state.stack.head? = some parent →
      parent.baseIndent < frame.baseIndent → frame.Inside parent)
    (hopen : state.openFrame frame = .ok next) : next.InOrder := by
  have hstack := stack_openFrame hopen
  have hroot := root_openFrame hopen
  refine ⟨?_, ?_, ?_⟩
  · rw [hstack, List.pairwise_cons]
    refine ⟨?_, h.inside⟩
    cases hparent : state.stack with
    | nil => exact fun outer houter => absurd houter List.not_mem_nil
    | cons parent rest =>
      have hbase : parent.baseIndent < frame.baseIndent := by
        by_contra hle
        obtain ⟨failure, herror⟩ := openFrame_of_le
          (show state.stack.head? = some parent by rw [hparent]; rfl) (Nat.not_lt.1 hle)
        rw [herror] at hopen
        cases hopen
      have hfits := hinside parent (by rw [hparent]; rfl) hbase
      have houter := h.inside
      rw [hparent, List.pairwise_cons] at houter
      exact List.forall_mem_cons.2 ⟨hfits, fun outer hmem => hfits.trans (houter.1 outer hmem)⟩
  · rw [hstack]
    exact List.forall_mem_cons.2 ⟨htidy, h.tidy⟩
  · rw [hroot]
    exact h.root

end InOrder
end State

namespace Visit

variable {visit : Visit} {next : State} {frame : Frame} {rest : Stack}

theorem isLeaf_of_isRelocated (hconfined : registry.Confined)
    (h : visit.isRelocated registry = true)
    (hframe : visit.frame? registry = some frame) : frame.role.isLeaf = true := by
  obtain ⟨key, around, haround, _, _, hstranded⟩ := exists_stranded h
  obtain rfl := Option.some.inj (hframe.symm.trans haround)
  exact hconfined.isLeaf hstranded

theorem inOrder_ready (registry : Registry) (h : visit.state.InOrder) :
    (visit.ready registry).InOrder := by
  have houtside : State.InOrder { visit.state with body := none } := h.congr rfl rfl
  exact houtside.closeUpTo registry _ _

theorem not_closesAt_of_frame? (hframe : visit.frame? registry = some frame) :
    frame.closesAt registry visit.input.line = false :=
  State.head_closeFor_not_closesAt hframe

/-- A step keeps the frames in order. -/
theorem inOrder_step (hconfined : registry.Confined) (hread : visit.input.line.IsRead)
    (h : visit.state.InOrder)
    (hstep : visit.state.step registry visit.input visit.rest = .ok next) : next.InOrder := by
  have hready := inOrder_ready registry h
  have houtcome := outcome_step registry visit
  rw [hstep] at houtcome
  generalize hresult : Except.ok next = result at houtcome
  cases houtcome with
  | text _ _ =>
    cases hresult
    exact h.congr (State.stack_writeBody _ _ _) (State.root_writeBody _ _ _)
  | loose _ _ =>
    cases hresult
    exact h.congr (State.stack_passThrough _ _) (State.root_passThrough _ _)
  | @relocated _ _ key events hrelocated _ =>
    cases hresult
    have hlogged : ((visit.ready registry).withEvents events).InOrder := hready.congr rfl rfl
    exact hlogged.liftOut
      (fun frame hframe => isLeaf_of_isRelocated hconfined hrelocated hframe) _ _
  | placed hplaced =>
    obtain ⟨events, hopened⟩ := step_eq_opened hplaced
    rw [hstep] at hopened
    have hsettled : (((visit.ready registry).withEvents events).settled visit.input).InOrder :=
      (hready.record visit.input.line).congr (stack_settled registry visit events)
        (root_settled registry visit events)
    split at hopened
    · rename_i frame hframe
      have hopens := State.opens_of_opening? hframe
      refine hsettled.openFrame hopens.tidy ?_ hopened.symm
      intro parent hparent hbase
      rw [stack_settled] at hparent
      have htidy : parent.Tidy :=
        (hready.record visit.input.line).tidy parent (List.mem_of_mem_head? hparent)
      have hleaf := State.not_isLeaf_of_opening? hframe hparent
      refine hopens.inside hleaf htidy hparent hread ?_ hbase
      -- What ends the frame around the line does not depend on the line being recorded in it.
      rw [placement, State.head?_record, Option.map_eq_some_iff] at hparent
      obtain ⟨around, haround, rfl⟩ := hparent
      have hopen : around.closesAt registry visit.input.line = false :=
        not_closesAt_of_frame? haround
      exact hopen
    · cases hopened
      exact hsettled

end Visit

theorem inOrder_of_mem_trail {inputs : List InputLine} {state : State}
    (hconfined : registry.Confined) (hread : ∀ input ∈ inputs, input.line.IsRead)
    (h : state.InOrder) {visit : Visit} (hvisit : visit ∈ trail registry state inputs) :
    visit.state.InOrder := by
  induction inputs generalizing state with
  | nil => cases hvisit
  | cons input rest ih =>
    obtain ⟨hinput, hrest⟩ := List.forall_mem_cons.1 hread
    simp only [trail, List.mem_cons] at hvisit
    rcases hvisit with rfl | hvisit
    · exact h
    · split at hvisit
      · rename_i next hstep
        exact ih hrest (@Visit.inOrder_step registry ⟨state, input, rest⟩ next hconfined hinput h
          hstep) hvisit
      · cases hvisit

theorem inOrder_steps {inputs : List InputLine} {state final : State}
    (hconfined : registry.Confined) (hread : ∀ input ∈ inputs, input.line.IsRead)
    (h : state.InOrder) (hsteps : steps registry state inputs = .ok final) : final.InOrder := by
  induction inputs generalizing state with
  | nil =>
    cases hsteps
    exact h
  | cons input rest ih =>
    obtain ⟨next, hstep, hrest⟩ := steps_cons_ok hsteps
    obtain ⟨hinput, hinputs⟩ := List.forall_mem_cons.1 hread
    exact ih hinputs (@Visit.inOrder_step registry ⟨state, input, rest⟩ next hconfined hinput h
      hstep) hrest

/-! ### The states of a pass -/

/-- The states that a pass over `text` goes through, whether or not it comes to the end:
* when it comes to a line;
* while the frames are ended that the line ends;
* when the line is recorded among the children of the innermost frame;
* after the last line, and while the frames are ended that are open there. -/
inductive Reaches (registry : Registry) (text : Text) : State → Prop
  | line {visit : Visit} : visit ∈ trailOf registry text → Reaches registry text visit.state
  | closing {visit : Visit} (count : Nat) : visit ∈ trailOf registry text →
      visit.isStructural = true →
      Reaches registry text
        (State.closeUpTo registry visit.input.line count { visit.state with body := none })
  | recorded {visit : Visit} : visit ∈ trailOf registry text → visit.isPlaced registry = true →
      Reaches registry text
        ((visit.ready registry).record visit.input.line (visit.placement registry))
  | unwinding {final : State} (count : Nat) :
      steps registry {} (InputLine.ofLines 1 text.splitLines) = .ok final →
      Reaches registry text (State.closeAtEnd count final)

theorem inOrder_of_reaches {text : Text} {state : State} (hconfined : registry.Confined)
    (h : Reaches registry text state) : state.InOrder := by
  have hread : ∀ input ∈ InputLine.ofLines 1 text.splitLines, input.line.IsRead :=
    fun _ hinput => InputLine.isRead_of_mem_ofLines hinput
  cases h with
  | line hvisit => exact inOrder_of_mem_trail hconfined hread .initial hvisit
  | @closing visit count hvisit _ =>
    have hstate := inOrder_of_mem_trail hconfined hread .initial hvisit
    have houtside : State.InOrder { visit.state with body := none } := hstate.congr rfl rfl
    exact houtside.closeUpTo registry _ count
  | recorded hvisit _ =>
    have hstate := inOrder_of_mem_trail hconfined hread .initial hvisit
    exact (Visit.inOrder_ready registry hstate).record _
  | unwinding count hsteps => exact (inOrder_steps hconfined hread .initial hsteps).closeAtEnd count

/-- From the outermost to the innermost frame, the columns of the keys increase in the output and
do not decrease in the input. Only the innermost frame may be a leaf and hold lines that were lifted
out, and lines wait for the ends of items only. -/
structure State.Layered (state : State) : Prop where
  base : state.stack.Pairwise fun inner outer => outer.baseIndent < inner.baseIndent
  input : state.stack.Pairwise fun inner outer => outer.inputIndent ≤ inner.inputIndent
  leaf : ∀ frame ∈ state.stack.tail, frame.role.isLeaf = false
  relocations : ∀ frame ∈ state.stack.tail, frame.relocations = []
  pending : ∀ scope, scope = state.root ∨ (∃ frame ∈ state.stack, frame.scope = scope) →
    ∀ entry, scope.entry = some entry → entry.item = false → entry.pending = []

theorem State.InOrder.layered {state : State} (h : state.InOrder) : state.Layered := by
  have hleaf : ∀ frame ∈ state.stack.tail, frame.role.isLeaf = false := by
    intro outer houter
    cases hstack : state.stack with
    | nil =>
      rw [hstack] at houter
      cases houter
    | cons frame rest =>
      have hinside := h.inside
      rw [hstack] at hinside houter
      exact ((List.pairwise_cons.1 hinside).1 outer houter).leaf
  refine ⟨h.inside.imp Frame.Inside.base, h.inside.imp Frame.Inside.input, hleaf, ?_, ?_⟩
  · intro frame hframe
    exact (h.tidy frame (List.mem_of_mem_tail hframe)).relocations (hleaf frame hframe)
  · rintro scope (rfl | ⟨frame, hframe, rfl⟩)
    · exact h.root
    · exact (h.tidy frame hframe).scope

/-- In every state of a pass the frames are in order. A line ends the frames that the boundary rule
names and no others, although only the innermost frame is ever compared with it. -/
theorem stack_layered (extra : RegistryExtension) (text : Text) (state : State)
    (h : Reaches (.extended extra) text state) :
    state.Layered ∧
      ∀ line, (state.closeFor (.extended extra) line).stack.map Frame.cleared =
        (state.stack.filter fun frame => !frame.closesAt (.extended extra) line).map
          Frame.cleared := by
  have horder := inOrder_of_reaches (Registry.confined_extended extra) h
  refine ⟨horder.layered, fun line => ?_⟩
  rw [State.map_cleared_closeFor, ← Stack.dropWhile_closesAt horder.inside horder.tidy,
    List.dropWhile_map]
  rfl

/-- A task with an attribute in its list of tags, and a task after it. -/
def taskWithTags : Text :=
  "tasks:\n  - name: a\n    tags:\n      - x\n      register: r\n  - name: b\n".toList

/-- The second task finds the list of tags inside the list of tasks, and leaves the latter. -/
theorem stack_layered_taskWithTags :
    ∃ visit ∈ trailOf (.extended {}) taskWithTags,
      visit.state.stack.map (fun frame => (frame.baseIndent, frame.relocations.length)) =
        [(4, 1), (0, 0)] ∧
      visit.state.Layered ∧
      (visit.state.closeFor (.extended {}) visit.input.line).stack.map Frame.cleared =
        (visit.state.stack.filter fun frame =>
          !frame.closesAt (.extended {}) visit.input.line).map Frame.cleared ∧
      (visit.state.closeFor (.extended {}) visit.input.line).stack.length = 1 := by
  have hfacts : (trailOf (.extended {}) taskWithTags).any (fun visit =>
      visit.state.stack.map (fun frame => (frame.baseIndent, frame.relocations.length)) ==
        [(4, 1), (0, 0)] &&
      (visit.state.closeFor (.extended {}) visit.input.line).stack.length == 1) = true := by
    decide +kernel
  obtain ⟨visit, hvisit, hfacts⟩ := List.any_eq_true.1 hfacts
  rw [Bool.and_eq_true, beq_iff_eq, beq_iff_eq] at hfacts
  obtain ⟨hlayered, hclosed⟩ := stack_layered {} taskWithTags visit.state (.line hvisit)
  exact ⟨visit, hvisit, hfacts.1, hlayered, hclosed visit.input.line, hfacts.2⟩

end Pass
end Reindent
