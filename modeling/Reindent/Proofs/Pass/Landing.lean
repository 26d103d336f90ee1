import Reindent.Proofs.Pass.OwnKeys
import Reindent.Proofs.Pass.Routing

/-!
# Reindent.Proofs.Pass.Landing

Where the lines stand that are lifted out, beside the keys of the item that they belong to.

* `State.marks`     — the open frames, as they were opened.
* `Passes.exists_opener` — an open frame was opened by a line that no line below has ended.
* `Visit.keyColumn` — the output column of the key that a line introduces.
* `Visit.keyColumn_of_sets` — the own keys of an item in a frame are all written at its column.
* `relocated_lands` — a line lands at the column of the key that opened its frame. If that is an own
  key of the item, the line joins the others.
* `not_relocated_lands` — at the root the keys of an item may stand elsewhere, and so may keys that
  are nested deeper.
-/

namespace Reindent

/-- The frame without its children and without what waits for its end. -/
def Frame.emptied (frame : Frame) : Frame :=
  { frame with scope := {}, relocations := [] }

theorem Frame.emptied_cleared (frame : Frame) : frame.cleared.emptied = frame.emptied := rfl

/-- An own key in a frame goes to the column of the item. In a frame of tasks or lists, no item is
an own key. -/
theorem Frame.entry_of_place {frame : Frame} {line : Line} {indent : Nat}
    (h : place frame line = .member indent) :
    ∃ entry, frame.scope.entry = some entry ∧ indent = entry.memberIndent ∧
      (frame.role.isLeaf = false → line.isItem = false) := by
  have hplaces := places_place frame line
  rw [h] at hplaces
  cases hplaces with
  | ownKey htakes hitem _ _ =>
    refine ⟨_, (Option.filter_eq_some_iff.1 hitem).1, rfl, fun hleaf => ?_⟩
    have hholds : frame.role.holdsItems = true := by
      cases hrole : frame.role <;> rw [hrole] at hleaf
      · rfl
      · rfl
      · cases hleaf
      · cases hleaf
    rw [takesItem, hholds, Bool.and_true] at htakes
    exact htakes

namespace Pass

variable {registry : Registry}

/-! ### Where a frame was opened -/

namespace State

/-- The open frames as they were opened, from outside. -/
def marks (state : State) : List Frame :=
  (state.stack.map Frame.emptied).reverse

variable {state next : State}

@[simp] theorem length_marks (state : State) : state.marks.length = state.stack.length := by
  simp [marks]

theorem marks_eq (state : State) :
    state.marks = ((state.stack.map Frame.cleared).map Frame.emptied).reverse := by
  simp [marks, Function.comp_def, Frame.emptied_cleared]

theorem marks_closeFor_prefix (state : State) (registry : Registry) (line : Line) :
    (state.closeFor registry line).marks <+: state.marks := by
  rw [marks_eq, marks_eq, map_cleared_closeFor, List.reverse_prefix]
  exact (List.dropWhile_suffix _).map _

theorem marks_record (state : State) (line : Line) :
    (state.record line (state.place line)).marks = state.marks := by
  cases hstack : state.stack with
  | nil =>
    have hrecorded : (state.record line (state.place line)).stack = [] := by
      simp only [record, State.scope, withScope, hstack, flushEntry_stack]
    rw [marks, marks, hrecorded, hstack]
  | cons frame rest =>
    rw [marks, marks, stack_record_cons line hstack, hstack]
    rfl

end State

namespace Visit

variable {visit : Visit} {next : State} {depth : Nat} {mark : Frame}

theorem marks_ready (h : depth < visit.depth registry) :
    (visit.ready registry).marks[depth]? = visit.state.marks[depth]? := by
  have hprefix : (visit.ready registry).marks <+: visit.state.marks :=
    State.marks_closeFor_prefix { visit.state with body := none } registry visit.input.line
  have hlt : depth < (visit.ready registry).marks.length := by
    rw [State.length_marks]
    exact h
  rw [List.prefix_iff_getElem?.1 hprefix depth hlt, List.getElem?_eq_getElem hlt]

theorem marks_of_isPlaced (hplaced : visit.isPlaced registry = true)
    (hstep : visit.state.step registry visit.input visit.rest = .ok next) :
    next.marks =
      (visit.ready registry).marks ++ ((visit.opened? registry).map Frame.emptied).toList := by
  obtain ⟨events, hopened⟩ := step_eq_opened hplaced
  rw [hstep] at hopened
  have hsettled : (((visit.ready registry).withEvents events).settled visit.input).marks =
      (visit.ready registry).marks := by
    rw [State.marks, stack_settled]
    exact State.marks_record (visit.ready registry) visit.input.line
  split at hopened
  · rename_i frame hframe
    rw [State.marks, State.stack_openFrame hopened.symm, hframe, ← hsettled]
    simp [State.marks]
  · rename_i hnone
    cases hopened
    rw [hsettled, hnone]
    simp

theorem marks_of_not_isPlaced (hplaced : visit.isPlaced registry = false)
    (hstep : visit.state.step registry visit.input visit.rest = .ok next) :
    next.marks = (visit.made registry).marks := by
  have houtcome := outcome_step registry visit
  rw [hstep] at houtcome
  generalize hresult : Except.ok next = result at houtcome
  cases houtcome with
  | text htext _ =>
    cases hresult
    rw [State.marks, State.stack_writeBody,
      made_of_not_isStructural (by simp [isStructural, htext]), State.marks]
  | loose _ hline =>
    cases hresult
    rw [State.marks, State.stack_passThrough,
      made_of_not_isStructural (by simp [isStructural, hline]), State.marks]
  | @relocated frame rest key events hrelocated hstack =>
    cases hresult
    have hlifted : ((visit.ready registry).withEvents events).stack = frame :: rest := hstack
    rw [made_of_isRelocated hrelocated]
    simp only [State.liftOut, hlifted, State.marks, hstack]
    rfl
  | placed hplaced' =>
    rw [hplaced'] at hplaced
    cases hplaced

theorem mark_of_step (hstep : visit.state.step registry visit.input visit.rest = .ok next)
    (h : next.marks[depth]? = some mark) :
    ((visit.isStructural = true → depth < visit.depth registry) ∧
        visit.state.marks[depth]? = some mark) ∨
      visit.isPlaced registry = true ∧ visit.depth registry = depth ∧
        (visit.opened? registry).map Frame.emptied = some mark := by
  cases hplaced : visit.isPlaced registry with
  | true =>
    rw [marks_of_isPlaced hplaced hstep] at h
    rcases Nat.lt_or_ge depth (visit.depth registry) with hlt | hle
    · rw [List.getElem?_append_left (by rw [State.length_marks]; exact hlt), marks_ready hlt] at h
      exact .inl ⟨fun _ => hlt, h⟩
    · rw [List.getElem?_append_right (by rw [State.length_marks]; exact hle),
        State.length_marks] at h
      have hopened := List.mem_of_getElem? h
      rw [Option.mem_toList] at hopened
      have hlast := (List.getElem?_eq_some_iff.1 h).1
      rw [hopened, Option.toList_some, List.length_singleton] at hlast
      exact .inr ⟨rfl, by rw [Visit.depth] at hle ⊢; omega, hopened⟩
  | false =>
    left
    rw [marks_of_not_isPlaced hplaced hstep] at h
    cases hstructural : visit.isStructural with
    | false =>
      rw [made_of_not_isStructural hstructural] at h
      exact ⟨fun hline => absurd hline Bool.false_ne_true, h⟩
    | true =>
      have hroute : visit.isPlaced registry = true ∨ visit.isRelocated registry = true :=
        isPlaced_or_isRelocated hstructural
      have hrelocated := hroute.resolve_left (Bool.eq_false_iff.1 hplaced)
      rw [made_of_isRelocated hrelocated] at h
      have hlt : depth < visit.depth registry := by
        rw [Visit.depth, ← State.length_marks]
        exact (List.getElem?_eq_some_iff.1 h).1
      rw [marks_ready hlt] at h
      exact ⟨fun _ => hlt, h⟩

end Visit

/-- A frame that is open in the end was open at the beginning, or a line has opened it. No line
below has ended it. -/
theorem Passes.exists_opener {state last : State} {visits : List Visit} {depth : Nat} {mark : Frame}
    (h : Passes registry state visits last) (hmark : last.marks[depth]? = some mark) :
    ((∀ visit ∈ visits, visit.isStructural = true → depth < visit.depth registry) ∧
        state.marks[depth]? = some mark) ∨
      ∃ outside opener inside, visits = outside ++ opener :: inside ∧
        opener.isPlaced registry = true ∧ opener.depth registry = depth ∧
        (opener.opened? registry).map Frame.emptied = some mark ∧
        ∀ visit ∈ inside, visit.isStructural = true → depth < visit.depth registry := by
  induction h with
  | nil => exact .inl ⟨fun visit hvisit => absurd hvisit List.not_mem_nil, hmark⟩
  | @cons visit next last visits _ hstep _ ih =>
    rcases ih hmark with ⟨hopen, hnext⟩ | ⟨outside, opener, inside, rfl, hopener⟩
    · rcases Visit.mark_of_step hstep hnext with ⟨hvisit, hstate⟩ | ⟨hplaced, hdepth, hopened⟩
      · exact .inl ⟨List.forall_mem_cons.2 ⟨hvisit, hopen⟩, hstate⟩
      · exact .inr ⟨[], visit, visits, rfl, hplaced, hdepth, hopened, hopen⟩
    · exact .inr ⟨visit :: outside, opener, inside, rfl, hopener⟩

/-- The line `opener` opened the frame that the line `lifted` is lifted out of, and none of the
lines `inside` has ended it. -/
structure OpenedBy (registry : Registry) (frame : Frame) (opener : Visit) (inside : List Visit)
    (lifted : Visit) : Prop where
  placed : opener.isPlaced registry = true
  opened : (opener.opened? registry).map Frame.emptied = some frame.emptied
  depth : lifted.depth registry = opener.depth registry + 1
  goesOn : ∀ visit ∈ inside, visit.isStructural = true →
    opener.depth registry < visit.depth registry

theorem exists_openedBy {lifted : Visit} {before : List Visit}
    (hbefore : Passes registry {} before lifted.state) {frame : Frame}
    (hframe : lifted.frame? registry = some frame) :
    ∃ outside opener inside, before = outside ++ opener :: inside ∧
      OpenedBy registry frame opener inside lifted := by
  obtain ⟨rest, hstack⟩ := List.head?_eq_some_iff.1 hframe
  have hdepth : lifted.depth registry = rest.length + 1 := by
    rw [Visit.depth, hstack, List.length_cons]
  have hmark : lifted.state.marks[rest.length]? = some frame.emptied := by
    rw [← Visit.marks_ready (by rw [hdepth]; exact Nat.lt_succ_self _), State.marks, hstack]
    simp
  rcases hbefore.exists_opener hmark with ⟨_, hinitial⟩ | hopener
  · cases hinitial
  · obtain ⟨outside, opener, inside, rfl, hplaced, hlevel, hopened, hopen⟩ := hopener
    rw [← hlevel] at hdepth hopen
    exact ⟨outside, opener, inside, rfl, hplaced, hopened, hdepth, hopen⟩

/-! ### The columns of keys -/

namespace Visit

variable {visit : Visit} {depth : Nat}

/-- The output column of the key that the line introduces. -/
def keyColumn (registry : Registry) (visit : Visit) : Nat :=
  visit.input.line.keyColumn (visit.column registry)

theorem baseIndent_of_opened? {frame : Frame} (hplaced : visit.isPlaced registry = true)
    (h : (visit.opened? registry).map Frame.emptied = some frame.emptied) :
    frame.baseIndent = visit.keyColumn registry := by
  obtain ⟨opened, hopened, hsame⟩ := Option.map_eq_some_iff.1 h
  obtain ⟨_, hcolumns⟩ := (State.opens_of_opening? hopened).exists_columns
  have hbase : opened.emptied.baseIndent = frame.emptied.baseIndent :=
    congrArg Frame.baseIndent hsame
  change opened.baseIndent = frame.baseIndent at hbase
  rw [← hbase, (Line.eq_keyColumn_of_openKeyColumns? hcolumns).2, keyColumn,
    column_of_isPlaced hplaced]

theorem exists_key_of_opened? (visit : Visit) {mark : Frame}
    (h : (visit.opened? registry).map Frame.emptied = some mark) :
    ∃ key, visit.input.line.key = some key := by
  obtain ⟨opened, hopened, _⟩ := Option.map_eq_some_iff.1 h
  cases State.opens_of_opening? hopened with
  | role hkey _ _ => exact ⟨_, hkey⟩
  | list hkey _ _ _ => exact ⟨_, hkey⟩
  | inline hkey _ _ _ _ => exact ⟨_, hkey⟩

theorem keyColumn_of_startsEntry (hread : visit.input.line.IsRead)
    (hitem : visit.input.line.isItem = true) (hkey : visit.input.line.key.isSome = true) :
    visit.keyColumn registry =
      (Entry.ofLine visit.input.line (visit.column registry)).memberIndent := by
  obtain ⟨c, payload, hpayload⟩ := Line.exists_payload hread hitem hkey
  rw [keyColumn, Line.keyColumn, if_pos hitem]
  simp only [Entry.ofLine, hpayload]

theorem keyColumn_of_isMember {child : Entry} (hinside : 0 < depth)
    (hdepth : visit.depth registry = depth) (hplaced : visit.isPlaced registry = true)
    (hmember : (visit.placement registry).isMember = true)
    (hchild : visit.state.childAt? depth = some child) {item : Child}
    (hitem : visit.state.HasItem depth item) : visit.keyColumn registry = child.memberIndent := by
  subst hdepth
  cases hstack : (visit.ready registry).stack with
  | nil =>
    rw [Visit.depth, hstack] at hinside
    cases hinside
  | cons frame rest =>
    have hlength : visit.depth registry = rest.length + 1 := by
      rw [Visit.depth, hstack, List.length_cons]
    have hplace : visit.placement registry = place frame visit.input.line :=
      placement_eq_place (by rw [frame?, hstack, List.head?_cons])
    cases hplacement : visit.placement registry with
    | entry indent =>
      rw [hplacement] at hmember
      cases hmember
    | carried indent =>
      rw [hplacement] at hmember
      cases hmember
    | unchanged =>
      rw [hplacement] at hmember
      cases hmember
    | member indent =>
      obtain ⟨entry, hentry, rfl, hother⟩ := Frame.entry_of_place (hplace.symm.trans hplacement)
      have hleaf : frame.role.isLeaf = false := by
        obtain ⟨_, role?, hsketch, hrole⟩ := hitem
        rw [← outline_ready (Nat.le_refl _), State.outline, hstack, hlength,
          Stack.getElem?_sketches_last, Option.some.injEq] at hsketch
        exact hrole frame.role (congrArg Sketch.role? hsketch).symm
      have hsame : child.memberIndent = entry.memberIndent := by
        rw [← childAt?_ready (Nat.le_refl _), State.childAt?, State.scopes, hstack, hlength,
          Stack.getElem?_scopes_last, Option.bind_some, Scope.cleared, hentry, Option.map_some,
          Option.some.injEq] at hchild
        rw [← hchild]
        rfl
      rw [keyColumn, Line.keyColumn_of_not_isItem (hother hleaf), column_of_isPlaced hplaced,
        hplacement, hsame]
      rfl

theorem isMember_of_isOwnKey (hown : visit.isOwnKey registry depth = true)
    (hopen : visit.endsEntry registry depth = false) :
    visit.isPlaced registry = true ∧ visit.depth registry = depth ∧
      (visit.placement registry).isMember = true := by
  simp only [isOwnKey, Bool.and_eq_true, Bool.or_eq_true, beq_iff_eq] at hown
  obtain ⟨⟨hplaced, hdepth⟩, ⟨_, hentry⟩ | hmember⟩ := hown
  · have hstarts : visit.startsEntry registry depth = true := by
      simp [startsEntry, hplaced, hdepth, hentry]
    rw [endsEntry_iff.2 ⟨(isPlaced_iff.1 hplaced).1, .inr hstarts⟩] at hopen
    cases hopen
  · exact ⟨hplaced, hdepth, hmember⟩

theorem keyColumn_of_root (hplaced : visit.isPlaced registry = true)
    (hdepth : visit.depth registry = 0) :
    visit.keyColumn registry = visit.input.line.keyColumn visit.input.line.indent := by
  rw [keyColumn, column_of_isPlaced hplaced,
    placement_indent_of_frame?_eq_none (frame?_eq_none.2 hdepth)]

end Visit

/-! ### Where a line lands -/

section Owned

variable {item : Entry} {depth : Nat} {first lifted : Visit} {between : List Visit}

theorem OwnedBy.keyColumn_of_sets (howned : OwnedBy registry item depth first between lifted)
    (hfirst : Passes registry first.state (first :: between) lifted.state)
    (hlifted : lifted.isRelocated registry = true)
    (howner : (lifted.ready registry).owner? = some item)
    (hitem : lifted.state.HasItem depth item.child) (hinside : 0 < depth) {visit : Visit}
    (hvisit : visit ∈ first :: between) {key : Text} (hsets : visit.Sets registry depth key) :
    visit.keyColumn registry = item.memberIndent := by
  have hcolumn : item.memberIndent =
      (Entry.ofLine first.input.line (first.column registry)).memberIndent := by
    obtain ⟨child, hchild, _, hindent, _⟩ := hfirst.ownKeys howned.starts howned.goesOn
    obtain ⟨_, frame, hframe, _⟩ := Visit.exists_stranded hlifted
    rw [Visit.childAt?_of_owner? howner howned.owner (by rw [hframe]; nofun),
      Option.some.injEq] at hchild
    rw [← hindent, ← hchild]
    rfl
  obtain ⟨_, hread, started, hstarted, hbetween⟩ := hfirst.uncons
  rcases List.mem_cons.1 hvisit with rfl | hvisit
  · have hkind := hsets.1
    rw [Visit.isOwnKey_of_startsEntry howned.starts] at hkind
    rw [hcolumn]
    exact Visit.keyColumn_of_startsEntry hread hkind (by rw [hsets.2]; rfl)
  · obtain ⟨hplaced, hdepth, hmember⟩ :=
      Visit.isMember_of_isOwnKey hsets.1 (howned.goesOn visit hvisit)
    obtain ⟨above, below, next, rfl, habove, _⟩ := hbetween.exists_of_mem hvisit
    have hopen : ∀ other ∈ above, other.endsEntry registry depth = false :=
      fun other hother => howned.goesOn other (List.mem_append_left _ hother)
    obtain ⟨child, hchild, _, hindent, _⟩ :=
      (Passes.cons hread hstarted habove).ownKeys howned.starts hopen
    have hhere := habove.hasItem hopen
      (hbetween.hasItem_of_startsEntry howned.starts hstarted howned.goesOn hitem)
    rw [Visit.keyColumn_of_isMember hinside hdepth hplaced hmember hchild hhere, hindent, hcolumn]

theorem OwnedBy.mem_of_openedBy (howned : OwnedBy registry item depth first between lifted)
    {frame : Frame} {opener : Visit} {outside inside above : List Visit}
    (hopened : OpenedBy registry frame opener inside lifted)
    (hdepth : opener.depth registry = depth)
    (hsplit : outside ++ opener :: inside = above ++ first :: between) :
    opener ∈ first :: between := by
  rcases List.append_eq_append_iff.1 hsplit with ⟨rest, _, hrest⟩ | ⟨rest, _, hrest⟩
  · cases rest with
    | nil =>
      rw [List.nil_append, List.cons.injEq] at hrest
      rw [hrest.1]
      exact List.mem_cons_self
    | cons _ rest =>
      rw [List.cons_append, List.cons.injEq] at hrest
      obtain ⟨hplaced, hstarts, _⟩ := Visit.startsEntry_iff.1 howned.starts
      have hdeeper := hopened.goesOn first (by rw [hrest.2]; simp) (Visit.isPlaced_iff.1 hplaced).1
      omega
  · rw [hrest]
    simp

end Owned

/-- The line that is lifted out of `frame` stands with the own keys of the item: in a frame these
are all at one column, and at the root the key of `frame` is where it was. -/
structure LandsBeside (registry : Registry) (frame : Frame) (item : Entry) (depth : Nat)
    (opener first : Visit) (between : List Visit) : Prop where
  isOwn : opener ∈ first :: between
  inFrame : 0 < depth → frame.baseIndent = item.memberIndent ∧
    ∀ visit ∈ first :: between, ∀ key, visit.Sets registry depth key →
      visit.keyColumn registry = frame.baseIndent
  atRoot : depth = 0 →
    frame.baseIndent = opener.input.line.keyColumn opener.input.line.indent

/-- A line that is lifted out and belongs to an item is written once, where the item ends, at the
column of the key that opened its frame. If that is an own key of the item, the line stands with
the others. -/
theorem relocated_lands (extra : RegistryExtension) {text : Text} {pass : Pass}
    {before after : List Visit} {lifted : Visit} {item : Entry}
    (hrun : run (.extended extra) text = .ok pass)
    (htrail : trailOf (.extended extra) text = before ++ lifted :: after)
    (hlifted : lifted.isRelocated (.extended extra) = true)
    (howner : (lifted.ready (.extended extra)).owner? = some item) :
    ∃ frame outside opener inside depth above first between,
      lifted.frame? (.extended extra) = some frame ∧
      before = outside ++ opener :: inside ∧
      OpenedBy (.extended extra) frame opener inside lifted ∧
      before = above ++ first :: between ∧
      OwnedBy (.extended extra) item depth first between lifted ∧
      WrittenOnce pass frame lifted.input ∧
      WrittenAtEndOf (.extended extra) pass depth first between lifted after ∧
      frame.baseIndent = opener.keyColumn (.extended extra) ∧
      (opener.isOwnKey (.extended extra) depth = true →
        LandsBeside (.extended extra) frame item depth opener first between) := by
  have hconfined := Registry.confined_extended extra
  have hcompletes := completes_run hconfined hrun
  rw [htrail] at hcompletes
  obtain ⟨middle, hbefore, hrest⟩ := hcompletes.append
  obtain ⟨rfl, hread, next, hstep, hafter⟩ := hrest.uncons
  have horder := hbefore.inOrder hconfined .initial
  obtain ⟨_, frame, hframe, _⟩ := Visit.exists_stranded hlifted
  have hmem : lifted ∈ trailOf (.extended extra) text := by
    rw [htrail]
    simp
  obtain ⟨outside, opener, inside, hopener, hopened⟩ := exists_openedBy hbefore hframe
  obtain ⟨depth, above, first, between, rfl, howned, hless, hitem⟩ :=
    exists_ownedBy hlifted hbefore horder howner
  obtain ⟨start, _, hfirst⟩ := hbefore.append
  obtain ⟨rfl, _⟩ := hfirst.uncons
  have hbase := Visit.baseIndent_of_opened? hopened.placed hopened.opened
  refine ⟨frame, outside, opener, inside, depth, above, first, between, hframe, hopener, hopened,
    rfl, howned, writtenOnce hrun hmem hlifted hframe,
    writtenAtEndOf hconfined howned hlifted hless hitem horder hfirst hread hstep hafter, hbase, ?_⟩
  intro hown
  have hdepth : opener.depth (.extended extra) = depth := by
    simp only [Visit.isOwnKey, Bool.and_eq_true, beq_iff_eq] at hown
    exact hown.1.2
  have hopenerMem := howned.mem_of_openedBy hopened hdepth hopener.symm
  refine ⟨hopenerMem, fun hinside => ?_, fun hroot => ?_⟩
  · have hcolumn : ∀ visit ∈ first :: between, ∀ key, visit.Sets (.extended extra) depth key →
        visit.keyColumn (.extended extra) = item.memberIndent :=
      fun visit hvisit key => howned.keyColumn_of_sets hfirst hlifted howner hitem hinside hvisit
    obtain ⟨key, hkey⟩ := opener.exists_key_of_opened? hopened.opened
    have hsame : frame.baseIndent = item.memberIndent :=
      hbase.trans (hcolumn opener hopenerMem key ⟨hown, hkey⟩)
    exact ⟨hsame, fun visit hvisit key hsets => (hcolumn visit hvisit key hsets).trans hsame.symm⟩
  · rw [hbase]
    exact Visit.keyColumn_of_root hopened.placed (hdepth.trans hroot)

/-- The attribute of `tagsThenRegister` stands with the own keys of its task. -/
theorem relocated_lands_tagsThenRegister :
    ∃ (pass : Pass) (tasks task tag lifted ender : Visit) (frame : Frame) (item : Entry),
      run (.extended {}) tagsThenRegister = .ok pass ∧
      trailOf (.extended {}) tagsThenRegister = [tasks, task, tag] ++ lifted :: [ender] ∧
      lifted.isRelocated (.extended {}) = true ∧
      (lifted.ready (.extended {})).owner? = some item ∧
      WrittenOnce pass frame lifted.input ∧ frame.baseIndent = item.memberIndent := by
  have hok : (run (.extended {}) tagsThenRegister).toOption.isSome = true := by decide +kernel
  have hfacts : ofFive (fun tasks task tag lifted _ =>
      lifted.isRelocated (.extended {}) && (lifted.ready (.extended {})).owner?.isSome &&
      (lifted.ready (.extended {})).ownerDepth? == some 1 && lifted.depth (.extended {}) == 2 &&
      [tasks, task, tag].all fun visit =>
        visit.depth (.extended {}) != 1 || visit.isOwnKey (.extended {}) 1)
      (trailOf (.extended {}) tagsThenRegister) = true := by
    decide +kernel
  obtain ⟨tasks, task, tag, lifted, ender, htrail, hfacts⟩ := exists_of_ofFive hfacts
  simp only [Bool.and_eq_true, beq_iff_eq, List.all_eq_true] at hfacts
  obtain ⟨⟨⟨⟨hlifted, howner⟩, hdepth⟩, hinside⟩, hown⟩ := hfacts
  obtain ⟨item, hitem⟩ := Option.isSome_iff_exists.1 howner
  cases hrun : run (.extended {}) tagsThenRegister with
  | error failure =>
    rw [hrun] at hok
    cases hok
  | ok pass =>
    obtain ⟨frame, outside, opener, inside, depth, above, first, between, _, hbefore, hopened, _,
      howned, honce, _, _, hlands⟩ := @relocated_lands {} tagsThenRegister pass [tasks, task, tag]
      [ender] lifted item hrun htrail hlifted hitem
    obtain rfl : depth = 1 := Option.some.inj (howned.owner.symm.trans hdepth)
    have hopener : opener ∈ [tasks, task, tag] := by
      rw [hbefore]
      simp
    have hlevel : opener.depth (.extended {}) = 1 := by
      have hnext := hopened.depth
      omega
    have hbeside := hlands (by simpa [hlevel] using hown opener hopener)
    exact ⟨pass, tasks, task, tag, lifted, ender, frame, item, rfl, htrail, hlifted, hitem, honce,
      (hbeside.inFrame Nat.one_pos).1⟩

/-- An item of the document with its keys below the dash. -/
def keysBelowDash : Text :=
  "-\n    name: t\n    tags:\n      - a\n      register: r\n".toList

/-- A task with a list of tags further inside. -/
def tagsInVars : Text :=
  "tasks:\n- vars:\n    tags:\n      - a\n      register: r\n".toList

/-- A line can land elsewhere than at the column of its item: at the root, where keys stay where
they are, and from a key that is nested deeper. -/
theorem not_relocated_lands :
    (∃ lifted ∈ trailOf .standard keysBelowDash, ∃ frame item,
      lifted.isRelocated .standard = true ∧ lifted.frame? .standard = some frame ∧
      (lifted.ready .standard).owner? = some item ∧ frame.baseIndent = 4 ∧
      item.memberIndent = 2) ∧
    ∃ lifted ∈ trailOf .standard tagsInVars, ∃ frame item,
      lifted.isRelocated .standard = true ∧ lifted.frame? .standard = some frame ∧
      (lifted.ready .standard).owner? = some item ∧ frame.baseIndent = 6 ∧
      item.memberIndent = 4 := by
  have hlands : ∀ (text : Text) (base column : Nat),
      ((trailOf .standard text).any fun lifted => lifted.isRelocated .standard &&
        (lifted.frame? .standard).any fun frame => (lifted.ready .standard).owner?.any fun item =>
          frame.baseIndent == base && item.memberIndent == column) = true →
      ∃ lifted ∈ trailOf .standard text, ∃ frame item, lifted.isRelocated .standard = true ∧
        lifted.frame? .standard = some frame ∧ (lifted.ready .standard).owner? = some item ∧
        frame.baseIndent = base ∧ item.memberIndent = column := by
    intro text base column h
    simp only [List.any_eq_true, Option.any_eq_true, Bool.and_eq_true, beq_iff_eq] at h
    obtain ⟨lifted, hmem, hlifted, frame, hframe, item, hitem, hbase, hcolumn⟩ := h
    exact ⟨lifted, hmem, frame, item, hlifted, hframe, hitem, hbase, hcolumn⟩
  exact ⟨hlands keysBelowDash 4 2 (by decide +kernel), hlands tagsInVars 6 4 (by decide +kernel)⟩

end Pass
end Reindent
