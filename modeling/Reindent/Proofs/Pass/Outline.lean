import Reindent.Proofs.Pass.Order

/-!
# Reindent.Proofs.Pass.Outline

The open frames and their last children, from outside.

* `Child`          — what stays the same of a child while it is the last one.
* `State.outline`  — the document and the open frames, each with its last child.
* `outline_made`   — a line leaves a level of the outline as it is unless it ends the child there.
* `exists_startsEntry` — each child of the outline was started by a line, and no line has ended it
  since.
* `State.HasItem`  — an item among the children.
* `exists_ownerDepth?` — a line that is lifted out while an item goes on has an owner in it.
-/

namespace Reindent

/-- The columns of a child, and whether it is an item. -/
structure Child where
  input : Nat
  output : Nat
  isItem : Bool
  deriving DecidableEq, Repr

/-- The document (which has no role) or a frame, with its last child. -/
structure Sketch where
  role? : Option Role
  child? : Option Child
  deriving DecidableEq, Repr

def Entry.child (entry : Entry) : Child :=
  { input := entry.input, output := entry.output, isItem := entry.item }

def Scope.child? (scope : Scope) : Option Child :=
  scope.entry.map Entry.child

def Frame.sketch (frame : Frame) : Sketch :=
  { role? := some frame.role, child? := frame.scope.child? }

theorem Scope.child?_cleared (scope : Scope) : scope.cleared.child? = scope.child? := by
  cases h : scope.entry <;> simp [child?, cleared, h, Entry.child, Entry.cleared]

theorem Frame.sketch_cleared (frame : Frame) : frame.cleared.sketch = frame.sketch := by
  rw [sketch, sketch]
  exact congrArg _ (Scope.child?_cleared frame.scope)

theorem Scope.child?_record {scope : Scope} {line : Line} {placement : Placement}
    (h : placement.isEntry = false) : (scope.record line placement).1.child? = scope.child? := by
  cases placement with
  | entry indent => cases h
  | member indent =>
    cases hentry : scope.entry <;> simp [child?, record, hentry, Entry.child, Entry.addMember]
  | carried indent => rfl
  | unchanged => rfl

theorem Scope.child?_record_entry (scope : Scope) (line : Line) (indent : Nat) :
    (scope.record line (.entry indent)).1.child? =
      some { input := line.indent, output := indent, isItem := line.isItem } := by
  simp only [child?, record, Option.map_some, Entry.child, Entry.ofLine]
  split <;> rfl

namespace Stack

/-- The document and the frames, from outside. The frame with `depth` frames around it, itself
included, stands at the index `depth`. -/
def sketches (root : Scope) (stack : Stack) : List Sketch :=
  { role? := none, child? := root.child? } :: (stack.map Frame.sketch).reverse

theorem sketches_cons (root : Scope) (frame : Frame) (rest : Stack) :
    sketches root (frame :: rest) = sketches root rest ++ [frame.sketch] := by
  simp [sketches]

@[simp] theorem length_sketches (root : Scope) (stack : Stack) :
    (sketches root stack).length = stack.length + 1 := by
  simp [sketches]

theorem sketches_prefix {root : Scope} {stack stack' : Stack} (h : stack' <:+ stack) :
    sketches root stack' <+: sketches root stack := by
  obtain ⟨inner, rfl⟩ := h
  refine ⟨(inner.map Frame.sketch).reverse, ?_⟩
  simp [sketches]

theorem sketches_cleared (root : Scope) (stack : Stack) :
    sketches root.cleared (stack.map Frame.cleared) = sketches root stack := by
  simp [sketches, Scope.child?_cleared, Frame.sketch_cleared, Function.comp_def]

theorem getElem?_sketches_last (root : Scope) (frame : Frame) (rest : Stack) :
    (sketches root (frame :: rest))[rest.length + 1]? = some frame.sketch := by
  rw [sketches_cons, ← length_sketches root rest, List.getElem?_concat_length]

theorem item_of_itemDepth? {root : Scope} {stack : Stack} {depth : Nat}
    (h : itemDepth? root stack = some depth) :
    depth ≤ stack.length ∧ ∃ item role?,
      (innermostItem? stack).or root.item? = some item ∧ item.item = true ∧
        (sketches root stack)[depth]? = some { role?, child? := some item.child } := by
  have hscope : ∀ scope : Scope, scope.item?.isSome →
      ∃ item, scope.item? = some item ∧ item.item = true ∧ scope.child? = some item.child := by
    intro scope hitem
    obtain ⟨item, hitem⟩ := Option.isSome_iff_exists.1 hitem
    obtain ⟨hentry, hkind⟩ := Option.filter_eq_some_iff.1 hitem
    exact ⟨item, hitem, hkind, by rw [Scope.child?, hentry, Option.map_some]⟩
  induction stack with
  | nil =>
    simp only [itemDepth?] at h
    split at h
    · rename_i hroot
      cases h
      obtain ⟨item, hitem, hkind, hchild⟩ := hscope root hroot
      exact ⟨Nat.le_refl 0, item, none, hitem, hkind, by simp [sketches, hchild]⟩
    · cases h
  | cons frame rest ih =>
    simp only [itemDepth?] at h
    split at h
    · rename_i hframe
      cases h
      obtain ⟨item, hitem, hkind, hchild⟩ := hscope frame.scope hframe
      refine ⟨Nat.le_refl _, item, some frame.role, ?_, hkind, ?_⟩
      · simp [innermostItem?, hitem]
      · rw [getElem?_sketches_last, Frame.sketch, hchild]
    · rename_i hframe
      obtain ⟨hle, item, role?, hitem, hkind, hsketch⟩ := ih h
      refine ⟨Nat.le_succ_of_le hle, item, role?, ?_, hkind, ?_⟩
      · have hnone : frame.scope.item? = none := by simpa using hframe
        rw [← hitem, innermostItem?, innermostItem?, List.findSome?_cons, hnone]
      · rw [sketches_cons, List.getElem?_append_left (by rw [length_sketches]; omega), hsketch]

theorem isSome_itemDepth? (root : Scope) (stack : Stack) :
    (itemDepth? root stack).isSome = ((innermostItem? stack).or root.item?).isSome := by
  induction stack with
  | nil => cases h : root.item? <;> simp [itemDepth?, innermostItem?, h]
  | cons frame rest ih =>
    rw [itemDepth?, innermostItem?, List.findSome?_cons]
    cases h : frame.scope.item? with
    | none => simpa [innermostItem?] using ih
    | some item => simp

/-- An item among the scopes is not further inside than the innermost one. -/
theorem exists_itemDepth? {root : Scope} {stack : Stack} {depth : Nat} {sketch : Sketch}
    {child : Child} (h : (sketches root stack)[depth]? = some sketch)
    (hchild : sketch.child? = some child) (hitem : child.isItem = true) :
    ∃ inner, itemDepth? root stack = some inner ∧ depth ≤ inner := by
  have hscope : ∀ scope : Scope, scope.child? = some child → scope.item?.isSome := by
    intro scope hscope
    obtain ⟨entry, hentry, rfl⟩ := Option.map_eq_some_iff.1 hscope
    have hkind : entry.item = true := hitem
    simp [Scope.item?, hentry, hkind]
  induction stack with
  | nil =>
    cases depth with
    | zero =>
      simp only [sketches, List.map_nil, List.reverse_nil, List.getElem?_cons_zero,
        Option.some.injEq] at h
      subst h
      exact ⟨0, by rw [itemDepth?, if_pos (hscope root hchild)], Nat.le_refl 0⟩
    | succ depth => simp [sketches] at h
  | cons frame rest ih =>
    by_cases hframe : frame.scope.item?.isSome
    · refine ⟨rest.length + 1, by rw [itemDepth?, if_pos hframe], ?_⟩
      have hlt := (List.getElem?_eq_some_iff.1 h).1
      rw [length_sketches, List.length_cons] at hlt
      omega
    · have hlt : depth < rest.length + 1 := by
        by_contra hlast
        have hlength := (List.getElem?_eq_some_iff.1 h).1
        rw [length_sketches, List.length_cons] at hlength
        obtain rfl : depth = rest.length + 1 := by omega
        rw [getElem?_sketches_last, Option.some.injEq] at h
        subst h
        exact hframe (hscope frame.scope hchild)
      rw [sketches_cons, List.getElem?_append_left (by rw [length_sketches]; exact hlt)] at h
      obtain ⟨inner, hinner, hle⟩ := ih h
      exact ⟨inner, by rw [itemDepth?, if_neg hframe, hinner], hle⟩

end Stack

namespace Pass

variable {registry : Registry}

namespace State

/-- The document and the open frames, from outside. -/
def outline (state : State) : List Sketch :=
  state.stack.sketches state.root

variable {state next : State}

@[simp] theorem length_outline (state : State) :
    state.outline.length = state.stack.length + 1 :=
  Stack.length_sketches _ _

theorem root_cleared_handOver (state : State) (lines : List Relocation) :
    (state.handOver lines).root.cleared = state.root.cleared := by
  simp only [handOver]
  split
  · rfl
  · split
    · exact Scope.cleared_append _ _
    · rfl

theorem root_flushEntry (state : State) (entry : Option Entry) :
    (state.flushEntry entry).root = state.root := by
  cases entry <;> rfl

theorem root_cleared_closeTop (state : State) :
    (state.closeTop false).root.cleared = state.root.cleared := by
  cases hstack : state.stack with
  | nil => rw [closeTop_of_nil hstack]
  | cons frame rest =>
    simp only [closeTop, hstack, release]
    split
    · rw [root_flushEntry]
    · rw [if_neg Bool.false_ne_true, root_cleared_handOver, root_flushEntry]

theorem root_cleared_closeFor (state : State) (registry : Registry) (line : Line) :
    (state.closeFor registry line).root.cleared = state.root.cleared :=
  closeFor_keeps (P := fun closed => closed.root.cleared = state.root.cleared)
    (fun closed h => (root_cleared_closeTop closed).trans h) registry line rfl

theorem outline_closeFor_prefix (state : State) (registry : Registry) (line : Line) :
    (state.closeFor registry line).outline <+: state.outline := by
  rw [outline, outline, ← Stack.sketches_cleared, ← Stack.sketches_cleared state.root,
    map_cleared_closeFor, root_cleared_closeFor]
  exact Stack.sketches_prefix (List.dropWhile_suffix _)

theorem root_record_cons {frame : Frame} {rest : Stack} (line : Line) (placement : Placement)
    (hstack : state.stack = frame :: rest) :
    (state.record line placement).root = state.root := by
  simp only [record, withScope, hstack, root_flushEntry]

theorem outline_record_cons {frame : Frame} {rest : Stack} (line : Line)
    (hstack : state.stack = frame :: rest) :
    (state.record line (state.place line)).outline =
      Stack.sketches state.root rest ++ [(frame.recorded line).sketch] := by
  rw [outline, stack_record_cons line hstack, root_record_cons line _ hstack, Stack.sketches_cons]

theorem outline_record_nil {line : Line} {placement : Placement} (hstack : state.stack = []) :
    (state.record line placement).outline =
      [{ role? := none, child? := (state.root.record line placement).1.child? }] := by
  have hrecorded : (state.record line placement).stack = [] ∧
      (state.record line placement).root = (state.root.record line placement).1 := by
    simp only [record, State.scope, withScope, hstack, root_flushEntry, flushEntry_stack]
    exact ⟨trivial, trivial⟩
  rw [outline, hrecorded.1, hrecorded.2]
  rfl

theorem getElem?_outline_record {line : Line} {depth : Nat}
    (h : depth < state.stack.length ∨ (state.place line).isEntry = false) :
    (state.record line (state.place line)).outline[depth]? = state.outline[depth]? := by
  cases hstack : state.stack with
  | nil =>
    rw [hstack] at h
    have hother := h.resolve_left (Nat.not_lt_zero depth)
    rw [outline_record_nil hstack, Scope.child?_record hother, outline, hstack]
    rfl
  | cons frame rest =>
    rw [outline_record_cons line hstack, outline, hstack, Stack.sketches_cons]
    rw [hstack, List.length_cons] at h
    rcases h with hinside | hother
    · rw [List.getElem?_append_left (by rw [Stack.length_sketches]; exact hinside),
        List.getElem?_append_left (by rw [Stack.length_sketches]; exact hinside)]
    · have hplace : (Reindent.place frame line).isEntry = false := by
        simpa only [State.place, hstack] using hother
      have hsame : (frame.recorded line).sketch = frame.sketch := by
        rw [Frame.sketch, Frame.sketch, Frame.recorded]
        exact congrArg _ (Scope.child?_record hplace)
      rw [hsame]

theorem getElem?_outline_record_entry {line : Line} {indent : Nat}
    (h : state.place line = .entry indent) :
    ∃ role?, (state.record line (state.place line)).outline[state.stack.length]? =
      some
        { role?,
          child? := some { input := line.indent, output := indent, isItem := line.isItem } } := by
  cases hstack : state.stack with
  | nil =>
    refine ⟨none, ?_⟩
    rw [outline_record_nil hstack, h, Scope.child?_record_entry]
    rfl
  | cons frame rest =>
    have hplace : Reindent.place frame line = .entry indent := by
      simpa only [State.place, hstack] using h
    refine ⟨some frame.role, ?_⟩
    rw [outline_record_cons line hstack, List.length_cons, ← Stack.length_sketches state.root rest,
      List.getElem?_concat_length, Frame.sketch, Frame.recorded, hplace]
    exact congrArg (fun child => some ({ role? := some frame.role, child? := child } : Sketch))
      (Scope.child?_record_entry _ _ _)

theorem InOrder.not_isLeaf (h : state.InOrder) {depth : Nat} {sketch : Sketch} {role : Role}
    (hinside : depth < state.stack.length) (hsketch : state.outline[depth]? = some sketch)
    (hrole : sketch.role? = some role) : role.isLeaf = false := by
  cases hstack : state.stack with
  | nil => simp [hstack] at hinside
  | cons frame rest =>
    have horder := h.inside
    rw [hstack, List.pairwise_cons] at horder
    rw [hstack, List.length_cons] at hinside
    rw [outline, hstack, Stack.sketches_cons,
      List.getElem?_append_left (by rw [Stack.length_sketches]; exact hinside)] at hsketch
    rcases List.mem_cons.1 (List.mem_of_getElem? hsketch) with rfl | hmem
    · cases hrole
    · obtain ⟨outer, houter, rfl⟩ := List.mem_map.1 (List.mem_reverse.1 hmem)
      cases hrole
      exact (horder.1 outer houter).leaf

end State

namespace Visit

variable {visit : Visit} {next : State} {depth : Nat}

theorem outline_ready (h : depth ≤ visit.depth registry) :
    (visit.ready registry).outline[depth]? = visit.state.outline[depth]? := by
  have hprefix : (visit.ready registry).outline <+: visit.state.outline :=
    State.outline_closeFor_prefix { visit.state with body := none } registry visit.input.line
  exact (List.prefix_iff_getElem?.1 hprefix depth
    (by rw [State.length_outline]; exact Nat.lt_succ_of_le h)) ▸ List.getElem?_eq_getElem _

theorem not_isLeaf_of_frame? (horder : visit.state.InOrder)
    (hless : visit.depth registry < visit.state.stack.length) {frame : Frame}
    (hframe : visit.frame? registry = some frame) : frame.role.isLeaf = false := by
  obtain ⟨rest, hstack⟩ := List.head?_eq_some_iff.1 hframe
  have hsketch : visit.state.outline[visit.depth registry]? = some frame.sketch := by
    rw [← outline_ready (Nat.le_refl _), State.outline, Visit.depth, hstack, List.length_cons]
    exact Stack.getElem?_sketches_last _ _ _
  exact horder.not_isLeaf hless hsketch rfl

theorem depth_of_isRelocated (hconfined : registry.Confined) (horder : visit.state.InOrder)
    (h : visit.isRelocated registry = true) :
    visit.depth registry = visit.state.stack.length := by
  obtain ⟨key, frame, hframe, _⟩ := exists_stranded h
  refine Nat.le_antisymm (State.closeUpTo_stack_length_le _ _ _ _) (Nat.not_lt.1 fun hless => ?_)
  have hleaf := not_isLeaf_of_frame? horder hless hframe
  rw [isLeaf_of_isRelocated hconfined h hframe] at hleaf
  cases hleaf

theorem outline_made (h : visit.endsEntry registry depth = false) :
    (visit.made registry).outline[depth]? = visit.state.outline[depth]? := by
  cases hstructural : visit.isStructural with
  | false => rw [made_of_not_isStructural hstructural]
  | true =>
    have hle := le_depth_of_not_endsEntry hstructural h
    rw [← outline_ready hle]
    rcases isPlaced_or_isRelocated hstructural with hplaced | hrelocated
    · rw [made_of_isPlaced hplaced]
      refine State.getElem?_outline_record ?_
      rcases Nat.lt_or_eq_of_le hle with hlt | heq
      · exact .inl hlt
      · right
        by_contra hentry
        rw [Bool.not_eq_false] at hentry
        have hstarts : visit.startsEntry registry depth = true := by
          rw [startsEntry, hplaced, heq, beq_self_eq_true, Bool.true_and, Bool.true_and]
          exact hentry
        rw [endsEntry_iff.2 ⟨hstructural, .inr hstarts⟩] at h
        cases h
    · rw [made_of_isRelocated hrelocated]

/-- But for what waits in it, a step leaves what was made room for as it is, and may open a frame
without children inside. -/
theorem cleared_step (hstep : visit.state.step registry visit.input visit.rest = .ok next) :
    ∃ opened : Stack, next.stack.map Frame.cleared =
        opened.map Frame.cleared ++ (visit.made registry).stack.map Frame.cleared ∧
      next.root.cleared = (visit.made registry).root.cleared ∧
      ∀ frame ∈ opened, frame.scope.entry = none := by
  have houtcome := outcome_step registry visit
  rw [hstep] at houtcome
  have hnone : ∀ frame ∈ ([] : Stack), frame.scope.entry = none :=
    fun _ hframe => absurd hframe List.not_mem_nil
  generalize hresult : Except.ok next = result at houtcome
  cases houtcome with
  | text htext _ =>
    cases hresult
    rw [State.stack_writeBody, State.root_writeBody,
      made_of_not_isStructural (by simp [isStructural, htext])]
    exact ⟨[], rfl, rfl, hnone⟩
  | loose _ hline =>
    cases hresult
    rw [State.stack_passThrough, State.root_passThrough,
      made_of_not_isStructural (by simp [isStructural, hline])]
    exact ⟨[], rfl, rfl, hnone⟩
  | @relocated frame rest key events hrelocated hstack =>
    cases hresult
    have hlifted : ((visit.ready registry).withEvents events).stack = frame :: rest := hstack
    rw [made_of_isRelocated hrelocated]
    simp only [State.liftOut, hlifted, hstack]
    exact ⟨[], rfl, rfl, hnone⟩
  | placed hplaced =>
    obtain ⟨events, hopened⟩ := step_eq_opened hplaced
    rw [hstep] at hopened
    rw [made_of_isPlaced hplaced, ← stack_settled registry visit events,
      ← root_settled registry visit events]
    split at hopened
    · rename_i frame hframe
      refine ⟨[frame], ?_, ?_, ?_⟩
      · rw [State.stack_openFrame hopened.symm]
        rfl
      · rw [State.root_openFrame hopened.symm]
      · intro opened hmem
        rw [List.mem_singleton.1 hmem]
        exact (State.opens_of_opening? hframe).fresh.1
    · cases hopened
      exact ⟨[], rfl, rfl, hnone⟩

theorem outline_step (hstep : visit.state.step registry visit.input visit.rest = .ok next) :
    ∃ opened, next.outline = (visit.made registry).outline ++ opened ∧
      ∀ sketch ∈ opened, sketch.child? = none := by
  obtain ⟨opened, hstack, hroot, hempty⟩ := cleared_step hstep
  refine ⟨(opened.map Frame.sketch).reverse, ?_, ?_⟩
  · rw [State.outline, ← Stack.sketches_cleared, hroot, hstack, ← List.map_append,
      Stack.sketches_cleared, State.outline]
    simp [Stack.sketches]
  · intro sketch hsketch
    obtain ⟨frame, hframe, rfl⟩ := List.mem_map.1 (List.mem_reverse.1 hsketch)
    rw [Frame.sketch, Scope.child?, hempty frame hframe, Option.map_none]

/-- The child that a line starts. -/
def child (registry : Registry) (visit : Visit) : Child :=
  { input := visit.input.line.indent, output := visit.column registry
    isItem := visit.input.line.isItem }

theorem column_of_isPlaced (h : visit.isPlaced registry = true) :
    visit.column registry = (visit.placement registry).indent visit.input.line := by
  obtain ⟨hstructural, hlifted⟩ := isPlaced_iff.1 h
  obtain ⟨htext, hline⟩ := isStructural_iff.1 hstructural
  simp [column, htext, hline, hlifted]

theorem outline_made_of_startsEntry (h : visit.startsEntry registry depth = true) :
    ∃ role?, (visit.made registry).outline[depth]? =
      some { role?, child? := some (visit.child registry) } := by
  obtain ⟨hplaced, rfl, indent, hplacement⟩ := startsEntry_iff.1 h
  obtain ⟨role?, hrole⟩ := State.getElem?_outline_record_entry
    (show (visit.ready registry).place visit.input.line = .entry indent from hplacement)
  refine ⟨role?, ?_⟩
  rw [made_of_isPlaced hplaced, child, column_of_isPlaced hplaced, hplacement]
  rw [show (visit.ready registry).place visit.input.line = .entry indent from hplacement] at hrole
  exact hrole

/-- What becomes of a level of the outline that has a child in the end: either the line left the
child there, or it started it. -/
theorem outline_of_step (hstep : visit.state.step registry visit.input visit.rest = .ok next)
    {sketch : Sketch} {child : Child} (h : next.outline[depth]? = some sketch)
    (hchild : sketch.child? = some child) :
    (visit.endsEntry registry depth = false ∧ visit.state.outline[depth]? = some sketch) ∨
      visit.startsEntry registry depth = true ∧ child = visit.child registry := by
  obtain ⟨opened, hnext, hempty⟩ := outline_step hstep
  have hinside : depth < (visit.made registry).outline.length := by
    by_contra hlast
    rw [hnext, List.getElem?_append_right (Nat.not_lt.1 hlast)] at h
    rw [hempty sketch (List.mem_of_getElem? h)] at hchild
    cases hchild
  rw [hnext, List.getElem?_append_left hinside] at h
  cases hends : visit.endsEntry registry depth with
  | false => exact .inl ⟨rfl, by rw [← outline_made hends, h]⟩
  | true =>
    obtain ⟨hstructural, hends⟩ := endsEntry_iff.1 hends
    have hstarts : visit.startsEntry registry depth = true := by
      refine hends.resolve_left fun hless => ?_
      rw [State.length_outline, stack_made_length hstructural] at hinside
      omega
    obtain ⟨role?, hmade⟩ := outline_made_of_startsEntry hstarts
    rw [hmade, Option.some.injEq] at h
    subst h
    exact .inr ⟨hstarts, (Option.some.inj hchild).symm⟩

theorem outline_step_of_not_endsEntry
    (hstep : visit.state.step registry visit.input visit.rest = .ok next)
    (h : visit.endsEntry registry depth = false) {sketch : Sketch}
    (hsketch : visit.state.outline[depth]? = some sketch) :
    next.outline[depth]? = some sketch := by
  obtain ⟨opened, hnext, _⟩ := outline_step hstep
  have hmade := (outline_made h).trans hsketch
  rw [hnext, List.getElem?_append_left (List.getElem?_eq_some_iff.1 hmade).1, hmade]

end Visit

/-! ### Stretches of a pass -/

theorem Passes.outline {state last : State} {visits : List Visit} {depth : Nat} {sketch : Sketch}
    (h : Passes registry state visits last)
    (hopen : ∀ visit ∈ visits, visit.endsEntry registry depth = false)
    (hsketch : state.outline[depth]? = some sketch) : last.outline[depth]? = some sketch := by
  induction h with
  | nil => exact hsketch
  | cons _ hstep _ ih =>
    obtain ⟨hvisit, hvisits⟩ := List.forall_mem_cons.1 hopen
    exact ih hvisits (Visit.outline_step_of_not_endsEntry hstep hvisit hsketch)

/-- A child was there before, or was started by one of the lines; no line has ended it since. -/
theorem Passes.exists_startsEntry {state last : State} {visits : List Visit} {depth : Nat}
    {sketch : Sketch} {child : Child} (h : Passes registry state visits last)
    (hsketch : last.outline[depth]? = some sketch) (hchild : sketch.child? = some child) :
    (state.outline[depth]? = some sketch ∧
        ∀ visit ∈ visits, visit.endsEntry registry depth = false) ∨
      ∃ before first between, visits = before ++ first :: between ∧
        first.startsEntry registry depth = true ∧ child = first.child registry ∧
        ∀ visit ∈ between, visit.endsEntry registry depth = false := by
  induction h with
  | nil => exact .inl ⟨hsketch, fun visit hvisit => absurd hvisit List.not_mem_nil⟩
  | @cons visit next last visits _ hstep _ ih =>
    rcases ih hsketch with ⟨hnext, hopen⟩ | ⟨before, first, between, rfl, hfirst⟩
    · rcases Visit.outline_of_step hstep hnext hchild with ⟨hends, hstate⟩ | ⟨hstarts, hsame⟩
      · exact .inl ⟨hstate, List.forall_mem_cons.2 ⟨hends, hopen⟩⟩
      · exact .inr ⟨[], visit, visits, rfl, hstarts, hsame, hopen⟩
    · exact .inr ⟨visit :: before, first, between, rfl, hfirst⟩

/-! ### Items -/

/-- An item stands with `depth` frames around it, the innermost of which is no leaf. -/
structure State.HasItem (depth : Nat) (child : Child) (state : State) : Prop where
  isItem : child.isItem = true
  outline : ∃ role?, state.outline[depth]? = some { role?, child? := some child } ∧
    ∀ role, role? = some role → role.isLeaf = false

section Items

variable {state last : State} {visits : List Visit} {visit : Visit} {depth : Nat} {child : Child}

theorem Passes.hasItem (h : Passes registry state visits last)
    (hopen : ∀ visit ∈ visits, visit.endsEntry registry depth = false)
    (hitem : state.HasItem depth child) : last.HasItem depth child := by
  obtain ⟨hkind, role?, hsketch, hleaf⟩ := hitem
  exact ⟨hkind, role?, h.outline hopen hsketch, hleaf⟩

theorem Passes.hasItem_of_startsEntry (hstarts : visit.startsEntry registry depth = true)
    (hstep : visit.state.step registry visit.input visit.rest = .ok state)
    (h : Passes registry state visits last)
    (hopen : ∀ visit ∈ visits, visit.endsEntry registry depth = false)
    (hitem : last.HasItem depth child) : state.HasItem depth child := by
  obtain ⟨hkind, role?, hsketch, hleaf⟩ := hitem
  obtain ⟨opened, hstate, _⟩ := Visit.outline_step hstep
  obtain ⟨started?, hmade⟩ := Visit.outline_made_of_startsEntry hstarts
  have hstarted : state.outline[depth]? =
      some { role? := started?, child? := some (visit.child registry) } := by
    rw [hstate, List.getElem?_append_left (List.getElem?_eq_some_iff.1 hmade).1, hmade]
  refine ⟨hkind, role?, ?_, hleaf⟩
  rw [hstarted, ← h.outline hopen hstarted, hsketch]

/-- A line that is lifted out while an item goes on belongs to that item or to one inside it. -/
theorem Visit.exists_ownerDepth? (hconfined : registry.Confined)
    (hrelocated : visit.isRelocated registry = true)
    (hopen : visit.endsEntry registry depth = false) (hitem : visit.state.HasItem depth child) :
    ∃ inner, (visit.ready registry).ownerDepth? = some inner ∧ depth ≤ inner := by
  obtain ⟨hkind, role?, hsketch, hrole⟩ := hitem
  have hle := le_depth_of_not_endsEntry (isRelocated_iff.1 hrelocated).1 hopen
  have hready := (outline_ready hle).trans hsketch
  obtain ⟨key, frame, hframe, _⟩ := exists_stranded hrelocated
  obtain ⟨rest, hstack⟩ := List.head?_eq_some_iff.1 hframe
  rw [State.outline, hstack] at hready
  have hlt : depth < rest.length + 1 := by
    by_contra hlast
    have hdepth : visit.depth registry = rest.length + 1 := by
      rw [Visit.depth, hstack, List.length_cons]
    obtain rfl : depth = rest.length + 1 := by omega
    rw [Stack.getElem?_sketches_last, Option.some.injEq] at hready
    have hleaf := isLeaf_of_isRelocated hconfined hrelocated hframe
    rw [hrole frame.role (congrArg Sketch.role? hready).symm] at hleaf
    cases hleaf
  rw [Stack.sketches_cons, List.getElem?_append_left (by rw [Stack.length_sketches]; exact hlt)]
    at hready
  rw [State.ownerDepth?, hstack, List.tail_cons]
  exact Stack.exists_itemDepth? hready rfl hkind

end Items
end Pass
end Reindent
