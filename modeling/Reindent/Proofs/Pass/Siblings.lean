import Reindent.Proofs.Pass.Around

/-!
# Reindent.Proofs.Pass.Siblings

Lines that stand beside each other in the input stand beside each other in the output.

* `Siblings`         — two lines at one column with nothing but deeper lines between them, placed
  in the same frame.
* `Undisturbed`      — nothing between them changes what the frame makes of their column.
* `siblings_aligned` — such lines are written at one column.
* `siblings_apart`   — keys of two tasks that look like siblings, and are not written at one column.
-/

namespace Reindent

namespace Pass

variable {registry : Registry}

/-- Two items with deeper lines between them, or two other lines with deeper lines and items at
their own column between them. A frame that is open at both is the same frame, since no line
between them ends it. -/
structure Siblings (registry : Registry) (first : Visit) (between : List Visit) (second : Visit) :
    Prop where
  placed : first.isPlaced registry = true ∧ second.isPlaced registry = true
  column : second.input.line.indent = first.input.line.indent
  kind : second.input.line.isItem = first.input.line.isItem
  deeper : ∀ visit ∈ between, visit.isStructural = true →
    first.input.line.indent < visit.input.line.indent ∨
      (first.input.line.isItem = false ∧ visit.input.line.isItem = true ∧
        visit.input.line.indent = first.input.line.indent)
  depth : second.depth registry = first.depth registry
  inside : ∀ visit ∈ between, visit.isStructural = true →
    first.depth registry ≤ visit.depth registry

/-- Inside a frame:
* an item that is nested in an item of the frame meets no direct child of the frame and no own key
  of that item;
* an item among the arguments of a module is no direct child;
* any other line meets no item that is a direct child. -/
structure Undisturbed (registry : Registry) (first : Visit) (between : List Visit) : Prop where
  nested : ∀ frame ∈ first.frame? registry, first.input.line.isItem = true →
    frame.role.holdsItems = true → (first.placement registry).isEntry = false →
    ∀ visit ∈ between, visit.isPlaced registry = true →
      visit.depth registry = first.depth registry →
      (visit.placement registry).isEntry = false ∧ (visit.placement registry).isMember = false
  argument : ∀ frame ∈ first.frame? registry, first.input.line.isItem = true →
    frame.role.holdsItems = false → (first.placement registry).isEntry = false
  separate : ∀ frame ∈ first.frame? registry, first.input.line.isItem = false →
    ∀ visit ∈ between, visit.isPlaced registry = true →
      visit.depth registry = first.depth registry → visit.input.line.isItem = true →
      (visit.placement registry).isEntry = false

instance (first : Visit) (between : List Visit) (second : Visit) :
    Decidable (Siblings registry first between second) :=
  decidable_of_iff
    ((first.isPlaced registry = true ∧ second.isPlaced registry = true) ∧
      second.input.line.indent = first.input.line.indent ∧
      second.input.line.isItem = first.input.line.isItem ∧
      (∀ visit ∈ between, visit.isStructural = true →
        first.input.line.indent < visit.input.line.indent ∨
          (first.input.line.isItem = false ∧ visit.input.line.isItem = true ∧
            visit.input.line.indent = first.input.line.indent)) ∧
      second.depth registry = first.depth registry ∧
      ∀ visit ∈ between, visit.isStructural = true → first.depth registry ≤ visit.depth registry)
    ⟨fun ⟨h₁, h₂, h₃, h₄, h₅, h₆⟩ => ⟨h₁, h₂, h₃, h₄, h₅, h₆⟩,
      fun ⟨h₁, h₂, h₃, h₄, h₅, h₆⟩ => ⟨h₁, h₂, h₃, h₄, h₅, h₆⟩⟩

namespace Visit

theorem frame?_eq_none {visit : Visit} :
    visit.frame? registry = none ↔ visit.depth registry = 0 := by
  rw [frame?, depth, List.head?_eq_none_iff, List.length_eq_zero_iff]

theorem placement_indent_of_frame?_eq_none {visit : Visit} (h : visit.frame? registry = none) :
    (visit.placement registry).indent visit.input.line = visit.input.line.indent := by
  rw [frame?, List.head?_eq_none_iff] at h
  simp only [placement, State.place, h]
  exact placeAtRoot_indent _ _

theorem frame?_of_around {visit : Visit} {P : Frame → Prop}
    (h : (visit.ready registry).stack.Around (visit.depth registry) P) :
    ∃ frame, visit.frame? registry = some frame ∧ P frame := by
  cases hstack : (visit.ready registry).stack with
  | nil =>
    rw [hstack] at h
    obtain ⟨inner, frame, outer, hnil, _, _⟩ := h
    cases inner <;> cases hnil
  | cons top rest =>
    rw [depth, hstack] at h
    rcases Stack.around_cons h with ⟨_, hframe⟩ | ⟨hlength, _⟩
    · exact ⟨top, by rw [frame?, hstack]; rfl, hframe⟩
    · rw [List.length_cons] at hlength
      omega

end Visit

/-- What holds of a frame after `first` has been placed and is kept by every line between holds of
it at `second`. -/
theorem around_between {depth : Nat} {P : Frame → Prop} (hstable : Frame.Stable P) {state : State}
    {inputs : List InputLine} {before between after : List Visit} {first second : Visit}
    (htrail : trail registry state inputs = before ++ first :: (between ++ second :: after))
    (hfirst : ∀ next, first.state.step registry first.input first.rest = .ok next →
      next.stack.Around depth P)
    (hopen : ∀ visit ∈ between, visit.isStructural = true → depth ≤ visit.depth registry)
    (hrecorded : ∀ visit ∈ between, visit.isPlaced registry = true → visit.depth registry = depth →
      ∀ frame, visit.frame? registry = some frame → P frame → P (frame.recorded visit.input.line)) :
    second.state.stack.Around depth P := by
  induction between generalizing before first with
  | nil => exact hfirst second.state (step_of_trail htrail)
  | cons visit between ih =>
    have haround := hfirst visit.state (step_of_trail htrail)
    have hshift : trail registry state inputs =
        (before ++ [first]) ++ visit :: (between ++ second :: after) := by
      rw [htrail]
      simp
    refine ih hshift ?_ (fun v hv => hopen v (List.mem_cons_of_mem _ hv))
      (fun v hv => hrecorded v (List.mem_cons_of_mem _ hv))
    intro next hstep
    exact Visit.around_step hstable haround (hopen visit List.mem_cons_self)
      (hrecorded visit List.mem_cons_self) hstep

section Aligned

variable {state : State} {inputs : List InputLine} {before between after : List Visit}
  {first second : Visit}

theorem placement_indent_of_leads
    (htrail : trail registry state inputs = before ++ first :: (between ++ second :: after))
    (hsiblings : Siblings registry first between second) {frame : Frame}
    (hframe : first.frame? registry = some frame) (hitem : first.input.line.isItem = true)
    (hholds : frame.role.holdsItems = true) (hentry : (first.placement registry).isEntry = true) :
    (second.placement registry).indent second.input.line =
      (first.placement registry).indent first.input.line := by
  have hplace := Visit.placement_eq_place hframe
  have hstable := Frame.stable_leads first.input.line.indent
    ((first.placement registry).indent first.input.line)
  have hsecond : second.state.stack.Around (first.depth registry) fun frame =>
      frame.Leads first.input.line.indent ((first.placement registry).indent first.input.line) := by
    refine around_between hstable htrail ?_ hsiblings.inside ?_
    · intro next hstep
      obtain ⟨rest, hstack⟩ := List.head?_eq_some_iff.1 hframe
      obtain ⟨opened, hnext⟩ := Visit.stack_step hsiblings.placed.1 hstack hstep
      rw [hnext]
      refine Stack.Around.append (Stack.around_head ?_ ?_) opened
      · rw [Visit.depth, hstack, List.length_cons]
      · rw [hplace] at hentry ⊢
        exact Frame.leads_recorded hitem hholds hentry
    · intro visit hvisit hplaced hdepth top htop hleads
      simp only [Visit.isPlaced, Bool.and_eq_true] at hplaced
      have hle : first.input.line.indent ≤ visit.input.line.indent := by
        rcases hsiblings.deeper visit hvisit hplaced.1 with hlt | ⟨_, _, heq⟩
        · exact Nat.le_of_lt hlt
        · exact Nat.le_of_eq heq.symm
      exact hleads.recorded hle
  have hready := Visit.around_ready hstable hsecond (Nat.le_of_eq hsiblings.depth.symm)
  rw [← hsiblings.depth] at hready
  obtain ⟨top, htop, hleads⟩ := Visit.frame?_of_around hready
  rw [Visit.placement_eq_place htop]
  rw [← hsiblings.column] at hleads
  exact hleads.place_indent (hsiblings.kind.trans hitem)

/-- Any other lines: the frame awaits the second one as it placed the first. -/
theorem placement_indent_of_awaits
    (htrail : trail registry state inputs = before ++ first :: (between ++ second :: after))
    (hsiblings : Siblings registry first between second)
    (hundisturbed : Undisturbed registry first between) {frame : Frame}
    (hframe : first.frame? registry = some frame)
    (hentry : (first.placement registry).isEntry = true → first.input.line.isItem = false) :
    (second.placement registry).indent second.input.line =
      (first.placement registry).indent first.input.line := by
  have hplace := Visit.placement_eq_place hframe
  have hstable : Frame.Stable fun top => top.role = frame.role ∧
      top.Awaits first.input.line.isItem first.input.line.indent
        ((first.placement registry).indent first.input.line) := by
    have hawaits := Frame.stable_awaits first.input.line.isItem first.input.line.indent
      ((first.placement registry).indent first.input.line)
    exact ⟨fun top lines h => ⟨h.1, hawaits.relocations top lines h.2⟩,
      fun top lines h => ⟨h.1, hawaits.append top lines h.2⟩⟩
  have hsecond : second.state.stack.Around (first.depth registry) fun top =>
      top.role = frame.role ∧ top.Awaits first.input.line.isItem first.input.line.indent
        ((first.placement registry).indent first.input.line) := by
    refine around_between hstable htrail ?_ hsiblings.inside ?_
    · intro next hstep
      obtain ⟨rest, hstack⟩ := List.head?_eq_some_iff.1 hframe
      obtain ⟨opened, hnext⟩ := Visit.stack_step hsiblings.placed.1 hstack hstep
      rw [hnext]
      refine Stack.Around.append (Stack.around_head ?_ ⟨rfl, ?_⟩) opened
      · rw [Visit.depth, hstack, List.length_cons]
      · rw [hplace] at hentry ⊢
        exact Frame.awaits_recorded hentry
    · intro visit hvisit hplaced hdepth top htop hawaits
      have hvisitPlace := Visit.placement_eq_place htop
      have hstructural : visit.isStructural = true := by
        simp only [Visit.isPlaced, Bool.and_eq_true] at hplaced
        exact hplaced.1
      have hle : first.input.line.indent ≤ visit.input.line.indent := by
        rcases hsiblings.deeper visit hvisit hstructural with hlt | ⟨_, _, heq⟩
        · exact Nat.le_of_lt hlt
        · exact Nat.le_of_eq heq.symm
      refine ⟨hawaits.1, hawaits.2.recorded hle ?_ ?_⟩
      · intro hitem hholds
        rw [hawaits.1] at hholds
        have hnone : (first.placement registry).isEntry = false := by
          cases h : (first.placement registry).isEntry with
          | true =>
            rw [hentry h] at hitem
            cases hitem
          | false => rfl
        rw [← hvisitPlace]
        exact hundisturbed.nested frame hframe hitem hholds hnone visit hvisit hplaced hdepth
      · intro hitem hvisitItem
        rw [← hvisitPlace]
        exact hundisturbed.separate frame hframe hitem visit hvisit hplaced hdepth hvisitItem
  have hready := Visit.around_ready hstable hsecond (Nat.le_of_eq hsiblings.depth.symm)
  rw [← hsiblings.depth] at hready
  obtain ⟨top, htop, _, hawaits⟩ := Visit.frame?_of_around hready
  rw [Visit.placement_eq_place htop]
  rw [← hsiblings.column, ← hsiblings.kind] at hawaits
  exact hawaits.place_indent

theorem placement_indent_eq
    (htrail : trail registry state inputs = before ++ first :: (between ++ second :: after))
    (hsiblings : Siblings registry first between second)
    (hundisturbed : Undisturbed registry first between) :
    (second.placement registry).indent second.input.line =
      (first.placement registry).indent first.input.line := by
  cases hframe : first.frame? registry with
  | none =>
    have hsecond : second.frame? registry = none := by
      rw [Visit.frame?_eq_none, hsiblings.depth]
      exact Visit.frame?_eq_none.1 hframe
    rw [Visit.placement_indent_of_frame?_eq_none hframe,
      Visit.placement_indent_of_frame?_eq_none hsecond, hsiblings.column]
  | some frame =>
    by_cases hhead : first.input.line.isItem = true ∧ (first.placement registry).isEntry = true
    · obtain ⟨hitem, hentry⟩ := hhead
      have hholds : frame.role.holdsItems = true := by
        cases hholds : frame.role.holdsItems with
        | true => rfl
        | false =>
          rw [hundisturbed.argument frame hframe hitem hholds] at hentry
          cases hentry
      exact placement_indent_of_leads htrail hsiblings hframe hitem hholds hentry
    · refine placement_indent_of_awaits htrail hsiblings hundisturbed hframe ?_
      intro hentry
      exact Bool.eq_false_iff.2 fun hitem => hhead ⟨hitem, hentry⟩

end Aligned

/-- Siblings stay aligned, in every pass, unless a line between them disturbs the frame. -/
theorem siblings_aligned {text : Text} {pass : Pass} {before between after : List Visit}
    {first second : Visit} (hrun : run registry text = .ok pass)
    (htrail : trailOf registry text = before ++ first :: (between ++ second :: after))
    (hsiblings : Siblings registry first between second)
    (hundisturbed : Undisturbed registry first between) :
    ∃ column, pass.columnOf? first.input.number = some column ∧
      pass.columnOf? second.input.number = some column := by
  have hfirst : first ∈ trailOf registry text := by
    rw [htrail]
    simp
  have hsecond : second ∈ trailOf registry text := by
    rw [htrail]
    simp
  refine ⟨_, columnOf?_visit hrun hfirst hsiblings.placed.1, ?_⟩
  rw [columnOf?_visit hrun hsecond hsiblings.placed.2,
    placement_indent_eq htrail hsiblings hundisturbed]

/-- Whether `p` holds of the five lines of a document. -/
def ofFive (p : Visit → Visit → Visit → Visit → Visit → Bool) : List Visit → Bool
  | [a, b, c, d, e] => p a b c d e
  | _ => false

theorem exists_of_ofFive {p : Visit → Visit → Visit → Visit → Visit → Bool} {trail : List Visit}
    (h : ofFive p trail = true) :
    ∃ a b c d e, trail = [a, b, c, d, e] ∧ p a b c d e = true := by
  unfold ofFive at h
  split at h
  · exact ⟨_, _, _, _, _, rfl, h⟩
  · cases h

/-- A task list with a nested list. -/
def nestedTasks : Text :=
  "tasks:\n- name: a\n  tags:\n    - x\n- name: b\n".toList

theorem siblings_aligned_tasks :
    ∃ (pass : Pass) (first second : Visit) (between : List Visit),
      run .standard nestedTasks = .ok pass ∧ Siblings .standard first between second ∧
        first.input.number = 2 ∧ second.input.number = 5 ∧
        ∃ column, pass.columnOf? first.input.number = some column ∧
          pass.columnOf? second.input.number = some column := by
  have hok : (run .standard nestedTasks).toOption.isSome = true := by decide +kernel
  have hfacts : ofFive (fun _ first tags x second =>
      decide (Siblings .standard first [tags, x] second ∧ first.input.number = 2 ∧
        second.input.number = 5) &&
      (first.placement .standard).isEntry && first.input.line.isItem &&
        (first.frame? .standard).all fun frame => frame.role.holdsItems)
      (trailOf .standard nestedTasks) = true := by decide +kernel
  obtain ⟨play, first, tags, x, second, htrail, hfacts⟩ := exists_of_ofFive hfacts
  simp only [Bool.and_eq_true, decide_eq_true_eq] at hfacts
  obtain ⟨⟨⟨⟨hsiblings, hfirst, hsecond⟩, hentry⟩, hitem⟩, hholds⟩ := hfacts
  have hundisturbed : Undisturbed .standard first [tags, x] := by
    refine ⟨?_, ?_, ?_⟩
    · intro frame _ _ _ hnone
      rw [hentry] at hnone
      cases hnone
    · intro frame hframe _ hnone
      rw [Option.mem_def.1 hframe, Option.all_some] at hholds
      rw [hholds] at hnone
      cases hnone
    · intro frame _ hnone
      rw [hitem] at hnone
      cases hnone
  cases hrun : run .standard nestedTasks with
  | error failure =>
    rw [hrun] at hok
    cases hok
  | ok pass =>
    refine ⟨pass, first, second, [tags, x], rfl, hsiblings, hfirst, hsecond, ?_⟩
    exact @siblings_aligned .standard nestedTasks pass [play] [tags, x] [] first second hrun
      htrail hsiblings hundisturbed

/-- Two tasks, the first with its name far from its dash; their last keys stand left of the
dashes. -/
def misplacedKeys : Text :=
  "tasks:\n  -   name: a\n  register: x\n  - name: b\n  register: y\n".toList

/-- Keys left of the dash of a task are still its keys, so that two keys with a dash between them
go with two tasks. -/
theorem siblings_apart :
    ¬ ∀ (registry : Registry) (text : Text) (pass : Pass) (before between after : List Visit)
        (first second : Visit), run registry text = .ok pass →
        trailOf registry text = before ++ first :: (between ++ second :: after) →
        Siblings registry first between second →
        ∃ column, pass.columnOf? first.input.number = some column ∧
          pass.columnOf? second.input.number = some column := by
  intro haligned
  have hcolumns : ((run .standard misplacedKeys).toOption.map fun pass =>
      (pass.columnOf? 3, pass.columnOf? 5)) = some (some 6, some 4) := by decide +kernel
  have hfacts : ofFive (fun _ _ first dash second =>
      decide (Siblings .standard first [dash] second ∧ first.input.number = 3 ∧
        second.input.number = 5)) (trailOf .standard misplacedKeys) = true := by decide +kernel
  obtain ⟨play, name, first, dash, second, htrail, hfacts⟩ := exists_of_ofFive hfacts
  obtain ⟨hsiblings, hfirst, hsecond⟩ := of_decide_eq_true hfacts
  cases hrun : run .standard misplacedKeys with
  | error failure =>
    rw [hrun] at hcolumns
    cases hcolumns
  | ok pass =>
    obtain ⟨column, hcolumn, hcolumn'⟩ := haligned .standard misplacedKeys pass
      [play, name] [dash] [] first second hrun htrail hsiblings
    rw [hrun] at hcolumns
    simp only [Except.toOption, Option.map_some, Option.some.injEq, Prod.mk.injEq] at hcolumns
    rw [hfirst, hcolumns.1] at hcolumn
    rw [hsecond, hcolumns.2] at hcolumn'
    rw [← hcolumn'] at hcolumn
    cases hcolumn

end Pass
end Reindent
