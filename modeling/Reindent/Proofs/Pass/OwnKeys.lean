import Reindent.Proofs.Pass.Receipt

/-!
# Reindent.Proofs.Pass.OwnKeys

The own keys of an item, from the line that starts it on.

* `State.childAt?`  — the last child with a given number of frames around it.
* `Visit.isOwnKey`  — the line is an own key of the item there: it starts the item, or is placed
  among its keys.
* `childAt?_of_startsEntry`, `childAt?_step` — a line starts the child or adds to it, or leaves it
  as it is.
* `Passes.ownKeys`  — an item has the keys of its lines, and no others.
* `childAt?_ready`  — the owner of a line that is lifted out is the child at its depth.
-/

namespace Reindent

namespace Entry

theorem cleared_ofLine (line : Line) (output : Nat) :
    (ofLine line output).cleared = ofLine line output := by
  simp only [ofLine]
  split <;> rfl

theorem mem_keys_addMember {entry : Entry} {line : Line} {output : Nat} {key : Text} :
    key ∈ (entry.addMember line output).keys ↔ key ∈ entry.keys ∨ line.key = some key := by
  simp only [addMember]
  cases hkey : line.key with
  | none => simp
  | some found =>
    simp only [Option.some.injEq]
    split
    · rename_i hknown
      constructor
      · exact .inl
      · rintro (h | rfl)
        · exact h
        · simpa using hknown
    · rw [List.mem_append, List.mem_singleton, eq_comm]

theorem mem_keys_ofLine {line : Line} (hread : line.IsRead) {output : Nat} {key : Text} :
    key ∈ (ofLine line output).keys ↔ line.isItem = true ∧ line.key = some key := by
  simp only [ofLine]
  split
  · rename_i hpayload
    have hitem : line.isItem = true := by
      cases hitem : line.isItem with
      | true => rfl
      | false =>
        rw [Line.payload?_of_not_item hitem] at hpayload
        cases hpayload
    simp [hitem]
  · rename_i hpayload
    refine ⟨fun h => absurd h List.not_mem_nil, ?_⟩
    rintro ⟨hitem, hkey⟩
    obtain ⟨c, payload, hsome⟩ := Line.exists_payload hread hitem (by rw [hkey]; rfl)
    exact absurd hsome (hpayload c payload)

end Entry

theorem Scope.cleared_record (scope : Scope) (line : Line) (placement : Placement) :
    (scope.record line placement).1.cleared = (scope.cleared.record line placement).1 := by
  cases placement with
  | entry indent => simp [record, cleared, Entry.cleared_ofLine]
  | member indent =>
    cases hentry : scope.entry <;> simp [record, cleared, hentry, Entry.cleared, Entry.addMember,
      Entry.levelFor]
  | carried indent => rfl
  | unchanged => rfl

namespace Stack

/-- The children of the document and of the frames, without what waits for their ends. Those of the
frame with `depth` frames around it, itself included, stand at the index `depth`. -/
def scopes (root : Scope) (stack : Stack) : List Scope :=
  root.cleared :: (stack.map fun frame => frame.scope.cleared).reverse

theorem scopes_cons (root : Scope) (frame : Frame) (rest : Stack) :
    scopes root (frame :: rest) = scopes root rest ++ [frame.scope.cleared] := by
  simp [scopes]

@[simp] theorem length_scopes (root : Scope) (stack : Stack) :
    (scopes root stack).length = stack.length + 1 := by
  simp [scopes]

theorem getElem?_scopes_last (root : Scope) (frame : Frame) (rest : Stack) :
    (scopes root (frame :: rest))[rest.length + 1]? = some frame.scope.cleared := by
  rw [scopes_cons, ← length_scopes root rest, List.getElem?_concat_length]

theorem scopes_cleared (root : Scope) (stack : Stack) :
    scopes root.cleared (stack.map Frame.cleared) = scopes root stack := by
  have htwice : ∀ scope : Scope, scope.cleared.cleared = scope.cleared := by
    intro scope
    cases hentry : scope.entry <;> simp [Scope.cleared, hentry, Entry.cleared]
  simp [scopes, htwice, Frame.cleared, Function.comp_def]

theorem scopes_prefix {root : Scope} {stack stack' : Stack} (h : stack' <:+ stack) :
    scopes root stack' <+: scopes root stack := by
  obtain ⟨inner, rfl⟩ := h
  exact ⟨(inner.map fun frame => frame.scope.cleared).reverse, by simp [scopes]⟩

theorem scope_of_itemDepth? {root : Scope} {stack : Stack} {depth : Nat}
    (h : itemDepth? root stack = some depth) :
    ∃ item scope, (innermostItem? stack).or root.item? = some item ∧
      (scopes root stack)[depth]? = some scope ∧ scope.entry = some item.cleared := by
  have hscope : ∀ scope : Scope, scope.item?.isSome →
      ∃ item, scope.item? = some item ∧ scope.cleared.entry = some item.cleared := by
    intro scope hitem
    obtain ⟨item, hitem⟩ := Option.isSome_iff_exists.1 hitem
    exact ⟨item, hitem, by rw [Scope.cleared, (Option.filter_eq_some_iff.1 hitem).1]; rfl⟩
  induction stack with
  | nil =>
    simp only [itemDepth?] at h
    split at h
    · rename_i hroot
      cases h
      obtain ⟨item, hitem, hentry⟩ := hscope root hroot
      exact ⟨item, root.cleared, hitem, rfl, hentry⟩
    · cases h
  | cons frame rest ih =>
    simp only [itemDepth?] at h
    split at h
    · rename_i hframe
      cases h
      obtain ⟨item, hitem, hentry⟩ := hscope frame.scope hframe
      exact ⟨item, _, by simp [innermostItem?, hitem], getElem?_scopes_last _ _ _, hentry⟩
    · rename_i hframe
      obtain ⟨item, scope, hitem, hat, hentry⟩ := ih h
      have hnone : frame.scope.item? = none := by simpa using hframe
      refine ⟨item, scope, ?_, ?_, hentry⟩
      · rw [← hitem, innermostItem?, innermostItem?, List.findSome?_cons, hnone]
      · rw [scopes_cons, List.getElem?_append_left (List.getElem?_eq_some_iff.1 hat).1, hat]

end Stack

namespace Pass

variable {registry : Registry}

/-! ### The last children -/

namespace State

/-- The children of the document and of the open frames. -/
def scopes (state : State) : List Scope :=
  state.stack.scopes state.root

/-- The last child with `depth` frames around it, without what waits for its end. -/
def childAt? (depth : Nat) (state : State) : Option Entry :=
  state.scopes[depth]?.bind Scope.entry

variable {state : State}

@[simp] theorem length_scopes (state : State) : state.scopes.length = state.stack.length + 1 :=
  Stack.length_scopes _ _

theorem scopes_closeFor_prefix (state : State) (registry : Registry) (line : Line) :
    (state.closeFor registry line).scopes <+: state.scopes := by
  rw [scopes, scopes, ← Stack.scopes_cleared, ← Stack.scopes_cleared state.root,
    map_cleared_closeFor, root_cleared_closeFor]
  exact Stack.scopes_prefix (List.dropWhile_suffix _)

theorem scopes_record (line : Line) :
    ∃ outer scope, state.scopes = outer ++ [scope] ∧ outer.length = state.stack.length ∧
      (state.record line (state.place line)).scopes =
        outer ++ [(scope.record line (state.place line)).1] := by
  cases hstack : state.stack with
  | nil =>
    refine ⟨[], state.root.cleared, by rw [scopes, hstack]; rfl, rfl, ?_⟩
    have hrecorded : (state.record line (state.place line)).stack = [] ∧
        (state.record line (state.place line)).root =
          (state.root.record line (state.place line)).1 := by
      simp only [record, State.scope, withScope, hstack, root_flushEntry, flushEntry_stack]
      exact ⟨trivial, trivial⟩
    rw [scopes, hrecorded.1, hrecorded.2, ← Scope.cleared_record]
    rfl
  | cons frame rest =>
    refine ⟨Stack.scopes state.root rest, frame.scope.cleared,
      by rw [scopes, hstack, Stack.scopes_cons], Stack.length_scopes _ _, ?_⟩
    rw [scopes, stack_record_cons line hstack, root_record_cons line _ hstack, Stack.scopes_cons,
      Frame.recorded, Scope.cleared_record]
    simp only [State.place, hstack]

end State

namespace Visit

variable {visit : Visit} {next : State} {depth : Nat} {child : Entry}

/-- The line is an own key of the item with `depth` frames around it: it starts the item, or is
placed among its keys. -/
def isOwnKey (registry : Registry) (depth : Nat) (visit : Visit) : Bool :=
  visit.isPlaced registry && visit.depth registry == depth &&
    (visit.input.line.isItem && (visit.placement registry).isEntry ||
      (visit.placement registry).isMember)

theorem isOwnKey_of_startsEntry (h : visit.startsEntry registry depth = true) :
    visit.isOwnKey registry depth = visit.input.line.isItem := by
  obtain ⟨hplaced, hdepth, indent, hplacement⟩ := startsEntry_iff.1 h
  simp [isOwnKey, hplaced, hdepth, hplacement, Placement.isEntry, Placement.isMember]

theorem childAt?_ready (h : depth ≤ visit.depth registry) :
    (visit.ready registry).childAt? depth = visit.state.childAt? depth := by
  have hprefix : (visit.ready registry).scopes <+: visit.state.scopes :=
    State.scopes_closeFor_prefix { visit.state with body := none } registry visit.input.line
  have hlt : depth < (visit.ready registry).scopes.length := by
    rw [State.length_scopes]
    exact Nat.lt_succ_of_le h
  have hat : visit.state.scopes[depth]? = (visit.ready registry).scopes[depth]? := by
    rw [List.prefix_iff_getElem?.1 hprefix depth hlt, List.getElem?_eq_getElem hlt]
  rw [State.childAt?, State.childAt?, hat]

theorem childAt?_step_made
    (hstep : visit.state.step registry visit.input visit.rest = .ok next) :
    next.childAt? depth = (visit.made registry).childAt? depth := by
  obtain ⟨opened, hstack, hroot, hempty⟩ := cleared_step hstep
  have hscopes : next.scopes = (visit.made registry).scopes ++
      (opened.map fun frame => frame.scope.cleared).reverse := by
    rw [State.scopes, ← Stack.scopes_cleared, hroot, hstack, ← List.map_append,
      Stack.scopes_cleared, State.scopes]
    simp [Stack.scopes]
  rw [State.childAt?, State.childAt?, hscopes]
  rcases Nat.lt_or_ge depth (visit.made registry).scopes.length with hlt | hle
  · rw [List.getElem?_append_left hlt]
  · rw [List.getElem?_append_right hle, List.getElem?_eq_none hle, Option.bind_none,
      Option.bind_eq_none_iff]
    intro scope hscope
    obtain ⟨frame, hframe, rfl⟩ :=
      List.mem_map.1 (List.mem_reverse.1 (List.mem_of_getElem? hscope))
    rw [Scope.cleared, hempty frame hframe, Option.map_none]

theorem childAt?_of_depth (hplaced : visit.isPlaced registry = true)
    (hstep : visit.state.step registry visit.input visit.rest = .ok next) :
    ∃ scope : Scope, visit.state.childAt? (visit.depth registry) = scope.entry ∧
      next.childAt? (visit.depth registry) =
        (scope.record visit.input.line (visit.placement registry)).1.entry := by
  obtain ⟨outer, scope, hscopes, hlength, hrecorded⟩ :=
    (visit.ready registry).scopes_record visit.input.line
  have hdepth : visit.depth registry = outer.length := hlength.symm
  refine ⟨scope, ?_, ?_⟩
  · rw [← childAt?_ready (Nat.le_refl _), State.childAt?, hscopes, hdepth,
      List.getElem?_concat_length, Option.bind_some]
  · rw [childAt?_step_made hstep, made_of_isPlaced hplaced, State.childAt?, hdepth]
    rw [show (visit.ready registry).place visit.input.line = visit.placement registry from rfl]
      at hrecorded
    rw [hrecorded, List.getElem?_concat_length, Option.bind_some]

theorem childAt?_of_lt_depth (hplaced : visit.isPlaced registry = true)
    (hlt : depth < visit.depth registry)
    (hstep : visit.state.step registry visit.input visit.rest = .ok next) :
    next.childAt? depth = visit.state.childAt? depth := by
  obtain ⟨outer, scope, hscopes, hlength, hrecorded⟩ :=
    (visit.ready registry).scopes_record visit.input.line
  have hinside : depth < outer.length := by rwa [hlength]
  rw [childAt?_step_made hstep, made_of_isPlaced hplaced, ← childAt?_ready (Nat.le_of_lt hlt),
    State.childAt?, State.childAt?]
  rw [show (visit.ready registry).place visit.input.line = visit.placement registry from rfl]
    at hrecorded
  rw [hrecorded, hscopes, List.getElem?_append_left hinside, List.getElem?_append_left hinside]

theorem childAt?_of_startsEntry (hstarts : visit.startsEntry registry depth = true)
    (hstep : visit.state.step registry visit.input visit.rest = .ok next) :
    next.childAt? depth = some (Entry.ofLine visit.input.line (visit.column registry)) := by
  obtain ⟨hplaced, rfl, indent, hplacement⟩ := startsEntry_iff.1 hstarts
  obtain ⟨scope, _, hnext⟩ := childAt?_of_depth hplaced hstep
  rw [hnext, column_of_isPlaced hplaced, hplacement]
  rfl

/-- A line that does not end a child is an own key of it, or leaves it as it is. -/
theorem childAt?_step (hopen : visit.endsEntry registry depth = false)
    (hchild : visit.state.childAt? depth = some child)
    (hstep : visit.state.step registry visit.input visit.rest = .ok next) :
    next.childAt? depth =
      if visit.isOwnKey registry depth then
        some (child.addMember visit.input.line (visit.column registry))
      else some child := by
  cases hstructural : visit.isStructural with
  | false =>
    rw [childAt?_step_made hstep, made_of_not_isStructural hstructural, hchild]
    simp [isOwnKey, isPlaced, hstructural]
  | true =>
    have hle := le_depth_of_not_endsEntry hstructural hopen
    have hroute : visit.isPlaced registry = true ∨ visit.isRelocated registry = true :=
      isPlaced_or_isRelocated hstructural
    rcases hroute with hplaced | hrelocated
    · rcases Nat.lt_or_eq_of_le hle with hlt | rfl
      · rw [childAt?_of_lt_depth hplaced hlt hstep, hchild]
        simp [isOwnKey, Nat.ne_of_gt hlt]
      · obtain ⟨scope, hstate, hnext⟩ := childAt?_of_depth hplaced hstep
        rw [hchild] at hstate
        have hcolumn := column_of_isPlaced hplaced
        rw [hnext, isOwnKey, hplaced, beq_self_eq_true, Bool.true_and, Bool.true_and]
        cases hplacement : visit.placement registry with
        | entry indent =>
          rw [endsEntry_iff.2 ⟨hstructural,
            .inr (startsEntry_iff.2 ⟨hplaced, rfl, indent, hplacement⟩)⟩] at hopen
          cases hopen
        | member indent =>
          rw [hplacement] at hcolumn
          simp [Scope.record, ← hstate, hcolumn, Placement.indent, Placement.isMember]
        | carried indent =>
          simp [Scope.record, ← hstate, Placement.isEntry, Placement.isMember]
        | unchanged => simp [Scope.record, ← hstate, Placement.isEntry, Placement.isMember]
    · rw [childAt?_step_made hstep, made_of_isRelocated hrelocated, childAt?_ready hle, hchild]
      simp [isOwnKey, not_isPlaced_of_isRelocated hrelocated]

end Visit

/-! ### The keys of an item -/

/-- The line is an own key, with the given name, of the item with `depth` frames around it. -/
def Visit.Sets (registry : Registry) (depth : Nat) (key : Text) (visit : Visit) : Prop :=
  visit.isOwnKey registry depth = true ∧ visit.input.line.key = some key

/-- A child has grown by the keys of the lines that are its own keys. -/
structure GrownBy (registry : Registry) (depth : Nat) (visits : List Visit) (child grown : Entry) :
    Prop where
  item : grown.item = child.item
  memberIndent : grown.memberIndent = child.memberIndent
  keys : ∀ key,
    key ∈ grown.keys ↔ key ∈ child.keys ∨ ∃ visit ∈ visits, visit.Sets registry depth key

/-- A child grows until a line ends it. -/
theorem Passes.grownBy {state last : State} {visits : List Visit} {depth : Nat} {child : Entry}
    (h : Passes registry state visits last)
    (hopen : ∀ visit ∈ visits, visit.endsEntry registry depth = false)
    (hchild : state.childAt? depth = some child) :
    ∃ grown, last.childAt? depth = some grown ∧ GrownBy registry depth visits child grown := by
  induction h generalizing child with
  | nil => exact ⟨child, hchild, rfl, rfl, fun key => by simp⟩
  | @cons visit next last visits _ hstep _ ih =>
    obtain ⟨hvisit, hvisits⟩ := List.forall_mem_cons.1 hopen
    have hnext := Visit.childAt?_step hvisit hchild hstep
    cases hown : visit.isOwnKey registry depth with
    | true =>
      rw [hown, if_pos rfl] at hnext
      obtain ⟨grown, hlast, hitem, hindent, hkeys⟩ := ih hvisits hnext
      refine ⟨grown, hlast, hitem, hindent, fun key => ?_⟩
      simp [hkeys key, Entry.mem_keys_addMember, Visit.Sets, hown, or_assoc]
    | false =>
      rw [hown, if_neg Bool.false_ne_true] at hnext
      obtain ⟨grown, hlast, hitem, hindent, hkeys⟩ := ih hvisits hnext
      refine ⟨grown, hlast, hitem, hindent, fun key => ?_⟩
      simp [hkeys key, Visit.Sets, hown]

/-- An item has the keys of the lines that are its own keys, the first line included. -/
theorem Passes.ownKeys {last : State} {first : Visit} {visits : List Visit} {depth : Nat}
    (h : Passes registry first.state (first :: visits) last)
    (hstarts : first.startsEntry registry depth = true)
    (hopen : ∀ visit ∈ visits, visit.endsEntry registry depth = false) :
    ∃ child, last.childAt? depth = some child ∧ child.item = first.input.line.isItem ∧
      child.memberIndent =
        (Entry.ofLine first.input.line (first.column registry)).memberIndent ∧
      ∀ key, key ∈ child.keys ↔ ∃ visit ∈ first :: visits, visit.Sets registry depth key := by
  obtain ⟨_, hread, next, hstep, hrest⟩ := h.uncons
  obtain ⟨child, hlast, hitem, hindent, hkeys⟩ :=
    hrest.grownBy hopen (Visit.childAt?_of_startsEntry hstarts hstep)
  refine ⟨child, hlast, hitem.trans (Frame.item_ofLine _ _), hindent, fun key => ?_⟩
  simp [hkeys key, Entry.mem_keys_ofLine hread, Visit.Sets,
    Visit.isOwnKey_of_startsEntry hstarts]

theorem Visit.childAt?_of_owner? {visit : Visit} {item : Entry} {depth : Nat}
    (howner : (visit.ready registry).owner? = some item)
    (hdepth : (visit.ready registry).ownerDepth? = some depth)
    (hframe : visit.frame? registry ≠ none) :
    visit.state.childAt? depth = some item.cleared := by
  obtain ⟨found, scope, hfound, hscope, hentry⟩ := Stack.scope_of_itemDepth? hdepth
  obtain rfl : found = item := Option.some.inj (hfound.symm.trans howner)
  cases hstack : (visit.ready registry).stack with
  | nil =>
    rw [Visit.frame?, hstack] at hframe
    exact absurd rfl hframe
  | cons frame rest =>
    rw [hstack, List.tail_cons] at hscope
    have hinside := (List.getElem?_eq_some_iff.1 hscope).1
    rw [Stack.length_scopes] at hinside
    have hle : depth ≤ visit.depth registry := by
      rw [Visit.depth, hstack, List.length_cons]
      omega
    rw [← childAt?_ready hle, State.childAt?, State.scopes, hstack, Stack.scopes_cons,
      List.getElem?_append_left (by rw [Stack.length_scopes]; exact hinside), hscope,
      Option.bind_some, hentry]

end Pass
end Reindent
