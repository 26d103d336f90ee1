import Reindent.Proofs.Pass.Outline

/-!
# Reindent.Proofs.Pass.Receipt

Which item receives the lines that were lifted out of a frame.

* `State.receiver?`, `State.receiverDepth?` — the item that a frame which has just ended hands its
  lines to, and where it stands.
* `Sheltered`       — a line waits in the innermost frame, a leaf; the frames around it stand still.
* `Sheltered.step`  — they do until a line ends that leaf.
* `Sheltered.of_passes` — so does a line that is lifted out.
* `Sheltered.receiver?_closeUpTo` — then the item that owned the line receives it.

The owner of a line is looked up when the line is lifted out and again when its frame has ended. In
between nothing around the leaf changes, since nothing opens in a leaf.
-/

namespace Reindent

/-- The item, with more lines that wait for its end. -/
def Entry.receive (entry : Entry) (lines : List Relocation) : Entry :=
  { entry with pending := entry.pending ++ lines }

namespace Stack

theorem innermostItem?_handInnermost? {lines : List Relocation} {stack stack' : Stack}
    (h : handInnermost? lines stack = some stack') :
    ∃ item, innermostItem? stack = some item ∧
      innermostItem? stack' = some (item.receive lines) := by
  induction stack generalizing stack' with
  | nil => cases h
  | cons frame rest ih =>
    by_cases hitem : frame.scope.item?.isSome
    · simp only [handInnermost?, if_pos hitem, Option.some.injEq] at h
      subst h
      obtain ⟨item, hitem⟩ := Option.isSome_iff_exists.1 hitem
      have hreceived : (frame.scope.append lines).item? = some (item.receive lines) := by
        rw [Frame.item?_append, hitem]
        rfl
      exact ⟨item, by simp [innermostItem?, hitem], by simp [innermostItem?, hreceived]⟩
    · simp only [handInnermost?, if_neg hitem] at h
      obtain ⟨rest', hrest, rfl⟩ := Option.map_eq_some_iff.1 h
      obtain ⟨item, hbefore, hafter⟩ := ih hrest
      have hnone : frame.scope.item? = none := by simpa using hitem
      refine ⟨item, ?_, ?_⟩
      · rw [← hbefore, innermostItem?, innermostItem?, List.findSome?_cons, hnone]
      · rw [← hafter, innermostItem?, innermostItem?, List.findSome?_cons, hnone]

theorem itemDepth?_cleared (root : Scope) (stack : Stack) :
    itemDepth? root.cleared (stack.map Frame.cleared) = itemDepth? root stack := by
  have hscope : ∀ scope : Scope, scope.cleared.item?.isSome = scope.item?.isSome := by
    intro scope
    cases hentry : scope.entry with
    | none => simp [Scope.item?, Scope.cleared, hentry]
    | some entry =>
      cases hitem : entry.item <;>
        simp [Scope.item?, Scope.cleared, hentry, Option.filter, Entry.cleared, hitem]
  induction stack with
  | nil => simp only [List.map_nil, itemDepth?, hscope]
  | cons frame rest ih =>
    have hframe : frame.cleared.scope.item?.isSome = frame.scope.item?.isSome := hscope frame.scope
    simp only [List.map_cons, itemDepth?, hframe, ih, List.length_map]

end Stack

namespace Pass

variable {registry : Registry}

namespace State

/-- The item that the lines of a frame which has just ended are handed to. -/
def receiver? (state : State) : Option Entry :=
  state.stack.innermostItem?.or state.root.item?

/-- How many frames are around that item. -/
def receiverDepth? (state : State) : Option Nat :=
  state.stack.itemDepth? state.root

theorem receiverDepth?_handOver (state : State) (lines : List Relocation) :
    (state.handOver lines).receiverDepth? = state.receiverDepth? := by
  rw [receiverDepth?, receiverDepth?, ← Stack.itemDepth?_cleared, map_cleared_handOver,
    root_cleared_handOver, Stack.itemDepth?_cleared]

theorem receiver?_handOver {state : State} {item : Entry} (h : state.receiver? = some item)
    (lines : List Relocation) :
    (state.handOver lines).receiver? = some (item.receive lines) := by
  simp only [handOver]
  split
  · rename_i stack hstack
    obtain ⟨inner, hbefore, hafter⟩ := Stack.innermostItem?_handInnermost? hstack
    rw [receiver?, hbefore, Option.some_or, Option.some.injEq] at h
    rw [receiver?, hafter, Option.some_or, h]
  · rename_i hnone
    have hsome := @Stack.handInnermost?_isSome lines state.stack
    rw [hnone, eq_comm, Option.isSome_none, Option.isSome_eq_false_iff,
      Option.isNone_iff_eq_none] at hsome
    rw [receiver?, hsome, Option.none_or] at h
    rw [if_pos (by rw [h]; rfl), receiver?, hsome, Option.none_or, Frame.item?_append, h]
    rfl

end State

namespace Visit

variable {visit : Visit}

theorem length_outer_of_isRelocated (h : visit.isRelocated registry = true) :
    (visit.ready registry).stack.tail.length + 1 = visit.depth registry := by
  obtain ⟨key, frame, hframe, _⟩ := exists_stranded h
  obtain ⟨rest, hstack⟩ := List.head?_eq_some_iff.1 hframe
  rw [depth, hstack, List.tail_cons, List.length_cons]

theorem closesAt_eq_false_iff {frame : Frame} {outer : Stack}
    (hstack : visit.state.stack = frame :: outer) :
    frame.closesAt registry visit.input.line = false ↔ outer.length < visit.depth registry := by
  constructor
  · intro hopen
    have hready : visit.ready registry = { visit.state with body := none } :=
      @State.closeFor_of_not_closesAt registry { visit.state with body := none } frame _
        (by rw [hstack, List.head?_cons]) hopen
    rw [Visit.depth, hready]
    simp only [hstack, List.length_cons]
    exact Nat.lt_succ_self _
  · intro hopen
    by_contra hcloses
    rw [Bool.not_eq_false] at hcloses
    have hclosed : visit.ready registry = State.closeUpTo registry visit.input.line outer.length
        ({ visit.state with body := none }.closeTop false) := by
      simp only [Visit.ready, State.closeFor, hstack, List.length_cons, State.closeUpTo,
        if_pos hcloses]
    have hless := State.closeUpTo_stack_length_le registry visit.input.line outer.length
      ({ visit.state with body := none }.closeTop false)
    rw [State.closeTop_stack_length, hstack, List.length_cons] at hless
    rw [Visit.depth, hclosed] at hopen
    omega

theorem ready_of_le_depth (h : visit.state.stack.length ≤ visit.depth registry) :
    visit.ready registry = { visit.state with body := none } := by
  cases hstack : visit.state.stack with
  | nil => simp [ready, State.closeFor, hstack, State.closeUpTo]
  | cons frame outer =>
    rw [hstack, List.length_cons] at h
    exact @State.closeFor_of_not_closesAt registry { visit.state with body := none } frame _
      (by rw [hstack, List.head?_cons]) ((closesAt_eq_false_iff hstack).2 h)

end Visit

/-- A line waits in the innermost frame, a leaf, with the given frames around it. -/
def Sheltered (line : OutLine) (outer : Stack) (root : Scope) (state : State) : Prop :=
  ∃ frame, state.stack = frame :: outer ∧ state.root = root ∧ frame.role.isLeaf = true ∧
    line ∈ frame.relocations.map State.moved

namespace Sheltered

variable {line : OutLine} {outer : Stack} {root : Scope} {visit : Visit} {state next : State}

theorem congr (h : Sheltered line outer root state) (hstack : next.stack = state.stack)
    (hroot : next.root = state.root) : Sheltered line outer root next := by
  obtain ⟨frame, hframe, hdocument, hleaf, hline⟩ := h
  exact ⟨frame, hstack.trans hframe, hroot.trans hdocument, hleaf, hline⟩

theorem of_isRelocated (hconfined : registry.Confined)
    (hrelocated : visit.isRelocated registry = true)
    (hstep : visit.state.step registry visit.input visit.rest = .ok next) :
    Sheltered (visit.out registry) (visit.ready registry).stack.tail (visit.ready registry).root
      next := by
  have houtcome := Visit.outcome_step registry visit
  rw [hstep] at houtcome
  generalize hresult : Except.ok next = result at houtcome
  cases houtcome with
  | text htext _ => simp [Visit.isRelocated, Visit.isStructural, htext] at hrelocated
  | loose _ hline => simp [Visit.isRelocated, Visit.isStructural, hline] at hrelocated
  | placed hplaced =>
    rw [Visit.not_isRelocated_of_isPlaced hplaced] at hrelocated
    cases hrelocated
  | @relocated frame rest key events _ hstack =>
    cases hresult
    have hlifted : ((visit.ready registry).withEvents events).stack = frame :: rest := hstack
    have hleaf : frame.role.isLeaf = true :=
      Visit.isLeaf_of_isRelocated hconfined hrelocated
        (by rw [Visit.frame?, hstack, List.head?_cons])
    rw [Visit.out_of_relocated hrelocated hstack, hstack, List.tail_cons]
    simp only [State.liftOut, hlifted]
    refine ⟨_, rfl, rfl, hleaf, ?_⟩
    rw [List.map_append]
    exact List.mem_append_right _ List.mem_cons_self

theorem ready_eq (h : Sheltered line outer root visit.state)
    (hopen : outer.length < visit.depth registry) :
    visit.ready registry = { visit.state with body := none } := by
  obtain ⟨frame, hstack, _⟩ := h
  refine Visit.ready_of_le_depth ?_
  rw [hstack, List.length_cons]
  exact hopen

/-- Nothing around a leaf changes until a line ends it. -/
theorem step (h : Sheltered line outer root visit.state)
    (hopen : visit.isStructural = true → outer.length < visit.depth registry)
    (hstep : visit.state.step registry visit.input visit.rest = .ok next) :
    Sheltered line outer root next := by
  have hready : visit.isStructural = true → Sheltered line outer root (visit.ready registry) := by
    intro hstructural
    rw [h.ready_eq (hopen hstructural)]
    exact h.congr rfl rfl
  have houtcome := Visit.outcome_step registry visit
  rw [hstep] at houtcome
  generalize hresult : Except.ok next = result at houtcome
  cases houtcome with
  | text _ _ =>
    cases hresult
    exact h.congr (State.stack_writeBody _ _ _) (State.root_writeBody _ _ _)
  | loose _ _ =>
    cases hresult
    exact h.congr (State.stack_passThrough _ _) (State.root_passThrough _ _)
  | @relocated _ _ key events hrelocated _ =>
    cases hresult
    obtain ⟨frame, hstack, hroot, hleaf, hline⟩ :=
      hready (Visit.isRelocated_iff.1 hrelocated).1
    have hlifted : ((visit.ready registry).withEvents events).stack = frame :: outer := hstack
    simp only [State.liftOut, hlifted]
    refine ⟨_, rfl, hroot, hleaf, ?_⟩
    rw [List.map_append]
    exact List.mem_append_left _ hline
  | placed hplaced =>
    obtain ⟨frame, hstack, hroot, hleaf, hline⟩ := hready (Visit.isPlaced_iff.1 hplaced).1
    obtain ⟨events, hopened⟩ := Visit.step_eq_opened hplaced
    rw [hstep] at hopened
    have hrecorded : ((visit.ready registry).record visit.input.line
        (visit.placement registry)).stack = frame.recorded visit.input.line :: outer :=
      State.stack_record_cons _ hstack
    have hdocument : ((visit.ready registry).record visit.input.line
        (visit.placement registry)).root = root :=
      (State.root_record_cons _ _ hstack).trans hroot
    split at hopened
    · rename_i inner hinner
      have hother := State.not_isLeaf_of_opening? hinner
        (show _ = some (frame.recorded visit.input.line) by rw [hrecorded, List.head?_cons])
      have hsame : (frame.recorded visit.input.line).role = frame.role := rfl
      rw [hsame, hleaf] at hother
      cases hother
    · cases hopened
      exact ⟨_, (Visit.stack_settled registry visit events).trans hrecorded,
        (Visit.root_settled registry visit events).trans hdocument, hleaf, hline⟩

theorem passes {last : State} {visits : List Visit} (hpasses : Passes registry state visits last)
    (h : Sheltered line outer root state)
    (hopen : ∀ visit ∈ visits, visit.isStructural = true →
      outer.length < visit.depth registry) : Sheltered line outer root last := by
  induction hpasses with
  | nil => exact h
  | cons _ hstep _ ih =>
    obtain ⟨hvisit, hvisits⟩ := List.forall_mem_cons.1 hopen
    exact ih (h.step hvisit hstep) hvisits

theorem of_passes {last : State} {visits : List Visit} (hconfined : registry.Confined)
    (hrelocated : visit.isRelocated registry = true)
    (hstep : visit.state.step registry visit.input visit.rest = .ok next)
    (hpasses : Passes registry next visits last)
    (hopen : ∀ other ∈ visits, other.isStructural = true →
      visit.depth registry ≤ other.depth registry) :
    Sheltered (visit.out registry) (visit.ready registry).stack.tail (visit.ready registry).root
      last := by
  refine (of_isRelocated hconfined hrelocated hstep).passes hpasses ?_
  intro other hother hstructural
  have houter := Visit.length_outer_of_isRelocated hrelocated
  have hle := hopen other hother hstructural
  omega

/-- When the leaf ends, the innermost item around it receives the line. -/
theorem receiver?_closeUpTo {item : Entry} (h : Sheltered line outer root visit.state)
    (hitem : outer.innermostItem?.or root.item? = some item)
    (hends : visit.depth registry ≤ outer.length) :
    ∃ closed lines,
      State.closeUpTo registry visit.input.line 1 { visit.state with body := none } = closed ∧
      line ∈ lines.map State.moved ∧ closed.receiver? = some (item.receive lines) ∧
      closed.receiverDepth? = Stack.itemDepth? root outer := by
  obtain ⟨frame, hstack, rfl, _, hline⟩ := h
  have hcloses : frame.closesAt registry visit.input.line = true := by
    by_contra hopen
    rw [Bool.not_eq_true, Visit.closesAt_eq_false_iff hstack] at hopen
    omega
  have hwaiting : frame.relocations.isEmpty = false := by
    cases hrelocations : frame.relocations with
    | nil => simp [hrelocations] at hline
    | cons _ _ => rfl
  refine ⟨_, frame.relocations, rfl, hline, ?_⟩
  simp only [State.closeUpTo, hstack, if_pos hcloses, State.closeTop, State.release, hwaiting,
    Bool.false_eq_true, if_false]
  constructor
  · refine State.receiver?_handOver ?_ _
    rw [State.receiver?, State.flushEntry_stack, State.root_flushEntry]
    exact hitem
  · rw [State.receiverDepth?_handOver, State.receiverDepth?, State.flushEntry_stack,
      State.root_flushEntry]

end Sheltered
end Pass
end Reindent
