import Reindent.Proofs.Pass.Closing
import Reindent.Proofs.Pass.KeyOnce

/-!
# Reindent.Proofs.Pass.LiftOrder

In which order the lines are written that were lifted out and belong to one item.

* `State.course`     — what is written and what waits, in the order of the agenda.
* `Passes.course`    — lines come into it, and keep their order.
* `exists_course`    — at the end of the document, what waits for a frame that is still open is
  written above what its item has kept.
* `mem_lifted_iff`   — a line waits in such a frame if no line has ended that.
* `Overtakes`        — it does, while a line above it waits in the item.
* `lifted_order_iff` — then, and only then, the two change places.
-/

namespace Reindent

/-! ### Pairs of lines -/

theorem pair_sublist_append_iff {α : Type} {first second : α} {above below : List α} :
    [first, second].Sublist (above ++ below) ↔
      [first, second].Sublist above ∨ (first ∈ above ∧ second ∈ below) ∨
        [first, second].Sublist below := by
  constructor
  · intro h
    obtain ⟨front, back, hsplit, habove, hbelow⟩ := List.sublist_append_iff.1 h
    cases front with
    | nil =>
      rw [List.nil_append] at hsplit
      subst hsplit
      exact .inr (.inr hbelow)
    | cons line front =>
      rw [List.cons_append, List.cons.injEq] at hsplit
      obtain ⟨rfl, hsplit⟩ := hsplit
      cases front with
      | nil =>
        rw [List.nil_append] at hsplit
        subst hsplit
        exact .inr (.inl ⟨List.singleton_sublist.1 habove, List.singleton_sublist.1 hbelow⟩)
      | cons other front =>
        rw [List.cons_append, List.cons.injEq] at hsplit
        obtain ⟨rfl, hsplit⟩ := hsplit
        obtain ⟨rfl, rfl⟩ := List.append_eq_nil_iff.1 hsplit.symm
        exact .inl habove
  · rintro (h | ⟨hfirst, hsecond⟩ | h)
    · exact h.trans (List.sublist_append_left _ _)
    · exact Pass.State.pair_sublist_append hfirst hsecond
    · exact h.trans (List.sublist_append_right _ _)

/-- Two neighbouring stretches change places. That changes the order of two lines only if one is in
the first stretch and one in the second. -/
theorem pair_sublist_swap {α : Type} {first second : α} {above left right below : List α}
    (h : [first, second].Sublist (above ++ (left ++ right ++ below)))
    (hapart : ¬ (first ∈ left ∧ second ∈ right)) :
    [first, second].Sublist (above ++ (right ++ left ++ below)) := by
  simp only [pair_sublist_append_iff, List.mem_append] at h ⊢
  tauto

theorem not_pair_sublist_of_nodup {α : Type} {first second : α} {lines : List α}
    (hnodup : lines.Nodup) (h : [first, second].Sublist lines) :
    ¬ [second, first].Sublist lines := by
  induction lines with
  | nil => cases h
  | cons line lines ih =>
    obtain ⟨hnew, hrest⟩ := List.nodup_cons.1 hnodup
    intro hback
    rcases List.sublist_cons_iff.1 h with habove | ⟨_, hline, hsecond⟩
    · rcases List.sublist_cons_iff.1 hback with hback | ⟨_, hline, hfirst⟩
      · exact ih hrest habove hback
      · cases hline
        exact hnew (habove.subset (List.mem_cons_of_mem _ List.mem_cons_self))
    · cases hline
      rcases List.sublist_cons_iff.1 hback with hback | ⟨_, hline, _⟩
      · exact hnew (hback.subset (List.mem_cons_of_mem _ List.mem_cons_self))
      · cases hline
        exact hnew (hsecond.subset List.mem_cons_self)

namespace Pass

variable {registry : Registry}

/-! ### The course of the output -/

namespace State

variable {state next : State}

/-- The lines that are written, and then those that wait in the order of the agenda. -/
def course (state : State) : List OutLine :=
  state.solid.reverse ++ state.agenda.map Prod.snd

theorem Releases.course {released : List (Nat × OutLine)} (h : Releases state next released) :
    next.course = state.course := by
  rw [State.course, State.course, h.solid, h.agenda, List.reverse_append, List.reverse_reverse,
    List.map_append, List.append_assoc]

end State

namespace Visit

variable {visit : Visit} {next : State}

theorem course_made (registry : Registry) (visit : Visit) :
    (visit.made registry).course = visit.state.course := by
  obtain ⟨_, hreleases, _⟩ := visit.releases_made registry
  exact hreleases.course

/-- Where a line waits that is lifted out: behind all others that wait for the same item. -/
theorem exists_agenda_of_isRelocated (horder : visit.state.InOrder)
    (h : visit.isRelocated registry = true)
    (hstep : visit.state.step registry visit.input visit.rest = .ok next) :
    ∃ above below, (visit.ready registry).agenda = above ++ below ∧
      next.agenda =
        above ++ ((visit.ready registry).ownerLevel, visit.out registry) :: below ∧
      ∀ waiting ∈ below, waiting.1 < (visit.ready registry).ownerLevel := by
  obtain ⟨key, frame, events, _, hframe, _, hlifted⟩ := step_of_isRelocated h
  obtain ⟨rest, hstack⟩ := List.head?_eq_some_iff.1 hframe
  rw [hstep, Except.ok.injEq] at hlifted
  have hready : ((visit.ready registry).withEvents events).InOrder :=
    (inOrder_ready registry horder).congr rfl rfl
  have hlogged : ((visit.ready registry).withEvents events).stack = frame :: rest := hstack
  rw [hlifted, out_of_relocated h hstack]
  exact hready.exists_agenda_liftOut hlogged visit.input key

theorem course_step (horder : visit.state.InOrder) (hread : visit.input.line.IsRead)
    (hstep : visit.state.step registry visit.input visit.rest = .ok next) :
    visit.state.course.Sublist next.course := by
  rw [← course_made registry visit, State.course, State.course, solid_step hread hstep]
  cases hrelocated : visit.isRelocated registry with
  | true =>
    obtain ⟨above, below, hready, hnext, _⟩ := exists_agenda_of_isRelocated horder hrelocated hstep
    rw [if_pos (.inl rfl), made_of_isRelocated hrelocated, hready, hnext]
    exact ((List.sublist_cons_self _ _).append_left above |>.map Prod.snd).append_left _
  | false =>
    have hagenda := agenda_step hstep
    rw [hrelocated, if_neg Bool.false_ne_true] at hagenda
    rw [hagenda]
    refine List.Sublist.append_right ?_ _
    split
    · exact List.Sublist.refl _
    · rw [List.reverse_cons]
      exact List.sublist_append_left _ _

theorem pair_sublist_course (horder : visit.state.InOrder)
    (h : visit.isRelocated registry = true)
    (hstep : visit.state.step registry visit.input visit.rest = .ok next) {line : OutLine}
    (hline : ((visit.ready registry).ownerLevel, line) ∈ (visit.ready registry).agenda) :
    [line, visit.out registry].Sublist next.course := by
  obtain ⟨above, below, hready, hnext, hbelow⟩ := exists_agenda_of_isRelocated horder h hstep
  rw [hready] at hline
  have habove : ((visit.ready registry).ownerLevel, line) ∈ above :=
    (List.mem_append.1 hline).resolve_right fun hmem =>
      absurd (hbelow _ hmem) (Nat.lt_irrefl _)
  have hpair : [line, visit.out registry].Sublist
      (above.map Prod.snd ++ visit.out registry :: below.map Prod.snd) :=
    State.pair_sublist_append (List.mem_map.2 ⟨_, habove, rfl⟩) List.mem_cons_self
  rw [State.course, hnext, List.map_append, List.map_cons]
  exact hpair.trans (List.sublist_append_right _ _)

end Visit

theorem Passes.course {state last : State} {visits : List Visit} (hconfined : registry.Confined)
    (h : Passes registry state visits last) (horder : state.InOrder) :
    state.course.Sublist last.course := by
  induction h with
  | nil => exact List.Sublist.refl _
  | cons hread hstep _ ih =>
    exact (Visit.course_step horder hread hstep).trans
      (ih (Visit.inOrder_step hconfined hread horder hstep))

/-! ### The end of the document -/

theorem solid_unwind (state : State) :
    (unwind state).solid = (state.waiting.map State.moved).reverse ++ state.solid := by
  rw [← State.solid_flush, State.solid, State.insertAbove_unwind, ← State.insertAbove_flush]
  rfl

/-- What waits for the innermost frame changes places with what its item has kept. -/
theorem exists_course {state : State} (h : state.InOrder) :
    ∃ above below : List OutLine,
      state.course =
        above ++ (state.kept.map State.moved ++ state.lifted.map State.moved ++ below) ∧
      (unwind state).solid.reverse =
        above ++ (state.lifted.map State.moved ++ state.kept.map State.moved ++ below) := by
  obtain ⟨inner, below, _, _, hagenda, hwaiting⟩ := h.exists_agenda
  refine ⟨state.solid.reverse ++ inner.map Prod.snd, below.map Prod.snd, ?_, ?_⟩
  · rw [State.course, hagenda]
    simp
  · rw [solid_unwind, hwaiting]
    simp

/-! ### Lines that still wait for the end of a frame -/

namespace State

variable {state next : State}

theorem lifted_congr (h : next.stack = state.stack) : next.lifted = state.lifted := by
  rw [lifted, lifted, h]

theorem lifted_record (state : State) (line : Line) :
    (state.record line (state.place line)).lifted = state.lifted := by
  rw [lifted, lifted, head?_record, Option.map_map]
  rfl

theorem lifted_openFrame {frame : Frame} (hframe : frame.waiting = [])
    (h : state.openFrame frame = .ok next) : next.lifted = [] := by
  rw [lifted_of_head? (by rw [stack_openFrame h, List.head?_cons])]
  exact (List.append_eq_nil_iff.1 hframe).2

theorem mem_lifted_liftOut {input : InputLine} {key : Text} {r : Relocation}
    (h : r ∈ (state.liftOut input key).lifted) :
    r ∈ state.lifted ∨ r.lineNumber = input.number := by
  cases hstack : state.stack with
  | nil =>
    simp only [liftOut, hstack] at h
    exact .inl h
  | cons frame rest =>
    simp only [liftOut, lifted, hstack, List.head?_cons, Option.map_some, Option.getD_some,
      List.mem_append, List.mem_singleton] at h ⊢
    exact h.imp_right fun hnew => by rw [hnew]

end State

namespace Visit

variable {visit : Visit} {next : State} {r : Relocation}

theorem mem_lifted_ready (horder : visit.state.InOrder)
    (h : r ∈ (visit.ready registry).lifted) :
    r ∈ visit.state.lifted ∧ visit.depth registry = visit.state.stack.length := by
  have hle : visit.state.stack.length ≤ visit.depth registry := by
    by_contra hless
    cases hframe : visit.frame? registry with
    | none => simp [State.lifted, show (visit.ready registry).stack.head? = none from hframe] at h
    | some frame =>
      have hempty : frame.relocations = [] :=
        ((inOrder_ready registry horder).tidy frame (List.mem_of_mem_head? hframe)).relocations
          (not_isLeaf_of_frame? horder (Nat.not_le.1 hless) hframe)
      rw [State.lifted_of_head? hframe, hempty] at h
      cases h
  have hready := ready_of_le_depth hle
  rw [hready] at h
  exact ⟨h, by rw [depth, hready]⟩

theorem mem_lifted_made (horder : visit.state.InOrder) (h : r ∈ (visit.made registry).lifted) :
    r ∈ visit.state.lifted ∧
      (visit.made registry).stack.length = visit.state.stack.length := by
  cases hstructural : visit.isStructural with
  | false =>
    rw [made_of_not_isStructural hstructural] at h ⊢
    exact ⟨h, rfl⟩
  | true =>
    rw [stack_made_length hstructural]
    refine mem_lifted_ready horder ?_
    rcases isPlaced_or_isRelocated hstructural with hplaced | hrelocated
    · rwa [made_of_isPlaced hplaced, placement, State.lifted_record] at h
    · rwa [made_of_isRelocated hrelocated] at h

theorem mem_lifted_step (hstep : visit.state.step registry visit.input visit.rest = .ok next)
    (h : r ∈ next.lifted) :
    (visit.isRelocated registry = true ∧ r.lineNumber = visit.input.number) ∨
      (r ∈ (visit.made registry).lifted ∧
        next.stack.length = (visit.made registry).stack.length) := by
  have houtcome := outcome_step registry visit
  rw [hstep] at houtcome
  generalize hresult : Except.ok next = result at houtcome
  cases houtcome with
  | text htext _ =>
    cases hresult
    rw [State.lifted_congr (State.stack_writeBody _ _ _)] at h
    rw [made_of_not_isStructural (by simp [isStructural, htext]), State.stack_writeBody]
    exact .inr ⟨h, rfl⟩
  | loose _ hline =>
    cases hresult
    rw [State.lifted_congr (State.stack_passThrough _ _)] at h
    rw [made_of_not_isStructural (by simp [isStructural, hline]), State.stack_passThrough]
    exact .inr ⟨h, rfl⟩
  | @relocated frame rest key events hrelocated hstack =>
    cases hresult
    rw [made_of_isRelocated hrelocated]
    rcases State.mem_lifted_liftOut h with hready | hnew
    · exact .inr ⟨hready, by simp [State.liftOut, State.withEvents, hstack]⟩
    · exact .inl ⟨hrelocated, hnew⟩
  | placed hplaced =>
    obtain ⟨events, hopened⟩ := step_eq_opened hplaced
    rw [hstep] at hopened
    split at hopened
    · rename_i inner hinner
      rw [State.lifted_openFrame (State.waiting_opening? hinner) hopened.symm] at h
      cases h
    · cases hopened
      have hstack := stack_settled registry visit events
      rw [State.lifted_congr hstack] at h
      rw [made_of_isPlaced hplaced, hstack]
      exact .inr ⟨h, rfl⟩

end Visit

theorem Passes.mem_lifted {state last : State} {visits : List Visit} {r : Relocation}
    (hconfined : registry.Confined) (hpasses : Passes registry state visits last)
    (horder : state.InOrder) (h : r ∈ last.lifted) :
    (∃ visit ∈ visits, visit.isRelocated registry = true ∧ r.lineNumber = visit.input.number) ∨
      (r ∈ state.lifted ∧ ∀ visit ∈ visits, visit.isStructural = true →
        state.stack.length ≤ visit.depth registry) := by
  induction hpasses with
  | nil => exact .inr ⟨h, fun _ hvisit => absurd hvisit List.not_mem_nil⟩
  | @cons visit next last visits hread hstep _ ih =>
    rcases ih (Visit.inOrder_step hconfined hread horder hstep) h with
      ⟨other, hother, horigin⟩ | ⟨hnext, hopen⟩
    · exact .inl ⟨other, List.mem_cons_of_mem _ hother, horigin⟩
    · rcases Visit.mem_lifted_step hstep hnext with horigin | ⟨hmade, hlength⟩
      · exact .inl ⟨visit, List.mem_cons_self, horigin⟩
      · obtain ⟨hstate, hdepth⟩ := Visit.mem_lifted_made horder hmade
        rw [hlength, hdepth] at hopen
        refine .inr ⟨hstate, List.forall_mem_cons.2 ⟨fun hstructural => ?_, hopen⟩⟩
        rw [← hdepth, Visit.stack_made_length hstructural]

section Waiting

variable {text : Text} {pass : Pass} {before after : List Visit} {lifted : Visit} {final : State}

theorem mem_lifted_iff (hconfined : registry.Confined) (hrun : run registry text = .ok pass)
    (htrail : trailOf registry text = before ++ lifted :: after)
    (hpasses : Passes registry {} (before ++ lifted :: after) final)
    (hlifted : lifted.isRelocated registry = true) :
    lifted.out registry ∈ final.lifted.map State.moved ↔
      ∀ visit ∈ after, visit.isStructural = true →
        lifted.depth registry ≤ visit.depth registry := by
  obtain ⟨middle, hbefore, hrest⟩ := hpasses.append
  obtain ⟨rfl, hread, next, hstep, hafter⟩ := hrest.uncons
  constructor
  · intro hline
    obtain ⟨r, hr, hout⟩ := List.mem_map.1 hline
    have hnumber : r.lineNumber = lifted.input.number := by
      rw [← Visit.out_number registry lifted, ← hout]
      rfl
    have hnext := Visit.inOrder_step hconfined hread (hbefore.inOrder hconfined .initial) hstep
    rcases hafter.mem_lifted hconfined hnext hr with ⟨other, hother, _, horigin⟩ | ⟨_, hopen⟩
    · have hnodup := nodup_number_trail hrun
      rw [htrail, List.map_append, List.map_cons] at hnodup
      have hapart := (List.nodup_cons.1 (List.nodup_append.1 hnodup).2.1).1
      refine absurd (List.mem_map.2 ⟨other, hother, ?_⟩) hapart
      exact horigin.symm.trans hnumber
    · obtain ⟨frame, hstack, _⟩ := Sheltered.of_isRelocated hconfined hlifted hstep
      rw [hstack, List.length_cons, Visit.length_outer_of_isRelocated hlifted] at hopen
      exact hopen
  · intro hopen
    obtain ⟨frame, hstack, _, _, hline⟩ :=
      Sheltered.of_passes hconfined hlifted hstep hafter hopen
    rwa [State.lifted_of_head? (by rw [hstack, List.head?_cons])]

theorem solid_sublist_lines {count : Nat} (h : collect count (unwind final) = .ok pass) :
    (unwind final).solid.reverse.Sublist pass.lines := by
  rw [(collect_ok h).2.1]
  exact List.filter_sublist.reverse

end Waiting

/-! ### Two lines of one item -/

/-- The line `earlier` has left its frame, which a line in between has ended, and waits in the item.
The line `later` waits in its frame to the end of the document. -/
structure Overtakes (registry : Registry) (earlier : Visit) (between : List Visit) (later : Visit)
    (after : List Visit) : Prop where
  ended : ∃ visit ∈ between, visit.isStructural = true ∧
    visit.depth registry < earlier.depth registry
  stays : ∀ visit ∈ after, visit.isStructural = true →
    later.depth registry ≤ visit.depth registry

instance (earlier : Visit) (between : List Visit) (later : Visit) (after : List Visit) :
    Decidable (Overtakes registry earlier between later after) :=
  decidable_of_iff
    ((∃ visit ∈ between, visit.isStructural = true ∧
        visit.depth registry < earlier.depth registry) ∧
      ∀ visit ∈ after, visit.isStructural = true → later.depth registry ≤ visit.depth registry)
    ⟨fun ⟨ended, stays⟩ => ⟨ended, stays⟩, fun h => ⟨h.ended, h.stays⟩⟩

instance (item : Entry) (depth : Nat) (first : Visit) (between : List Visit) (lifted : Visit) :
    Decidable (OwnedBy registry item depth first between lifted) :=
  decidable_of_iff
    ((lifted.ready registry).ownerDepth? = some depth ∧ item.item = true ∧
      first.startsEntry registry depth = true ∧ item.child = first.child registry ∧
      ∀ visit ∈ between, visit.endsEntry registry depth = false)
    ⟨fun ⟨owner, isItem, starts, child, goesOn⟩ => ⟨owner, isItem, starts, child, goesOn⟩,
      fun h => ⟨h.owner, h.isItem, h.starts, h.child, h.goesOn⟩⟩

section Pair

variable {text : Text} {pass : Pass} {before between after : List Visit} {earlier later : Visit}
  {depth : Nat} {final : State}

theorem overtakes_iff (hconfined : registry.Confined) (hrun : run registry text = .ok pass)
    (htrail : trailOf registry text = before ++ earlier :: (between ++ later :: after))
    (hpasses : Passes registry {} (trailOf registry text) final)
    (hearlier : earlier.isRelocated registry = true)
    (hlater : later.isRelocated registry = true) :
    Overtakes registry earlier between later after ↔
      earlier.out registry ∉ final.lifted.map State.moved ∧
        later.out registry ∈ final.lifted.map State.moved := by
  have hsplit : trailOf registry text = (before ++ earlier :: between) ++ later :: after := by
    rw [htrail, List.append_assoc, List.cons_append]
  rw [mem_lifted_iff hconfined hrun htrail (htrail ▸ hpasses) hearlier,
    mem_lifted_iff hconfined hrun hsplit (hsplit ▸ hpasses) hlater]
  constructor
  · rintro ⟨⟨visit, hvisit, hstructural, hless⟩, hstays⟩
    refine ⟨fun hopen => ?_, hstays⟩
    have hle := hopen visit (List.mem_append_left _ hvisit) hstructural
    omega
  · rintro ⟨hended, hstays⟩
    refine ⟨?_, hstays⟩
    by_contra hnone
    have hbetween : ∀ visit ∈ between, visit.isStructural = true →
        earlier.depth registry ≤ visit.depth registry := by
      intro visit hvisit hstructural
      by_contra hless
      exact hnone ⟨visit, hvisit, hstructural, Nat.not_le.1 hless⟩
    obtain ⟨next, hbefore, hstep, hpassed⟩ := passes_between hrun htrail
    -- Both lines wait in one frame.
    have hsame : later.depth registry = earlier.depth registry := by
      obtain ⟨frame, hstack, _⟩ :=
        Sheltered.of_passes hconfined hearlier hstep hpassed hbetween
      rw [Visit.depth_of_isRelocated hconfined (hbefore.inOrder hconfined .initial) hlater, hstack,
        List.length_cons, Visit.length_outer_of_isRelocated hearlier]
    refine hended fun visit hvisit hstructural => ?_
    rcases List.mem_append.1 hvisit with hvisit | hvisit
    · exact hbetween visit hvisit hstructural
    · rcases List.mem_cons.1 hvisit with rfl | hvisit
      · exact Nat.le_of_eq hsame.symm
      · rw [← hsame]
        exact hstays visit hvisit hstructural

theorem pair_sublist_course (hconfined : registry.Confined) (hrun : run registry text = .ok pass)
    (htrail : trailOf registry text = before ++ earlier :: (between ++ later :: after))
    (hpasses : Passes registry {} (trailOf registry text) final)
    (hearlier : earlier.WaitsFor registry depth) (hlater : later.WaitsFor registry depth)
    (hopen : ∀ visit ∈ between, visit.endsEntry registry depth = false) :
    [earlier.out registry, later.out registry].Sublist final.course := by
  obtain ⟨next, hbefore, hstep, hbetween⟩ := passes_between hrun htrail
  rw [htrail, ← List.cons_append, ← List.append_assoc] at hpasses
  obtain ⟨middle, _, hrest⟩ := hpasses.append
  obtain ⟨rfl, hread, next', hstep', hafter⟩ := hrest.uncons
  have horder := hbefore.inOrder hconfined .initial
  have hwaits := mem_agenda_of_waitsFor hstep hbetween hearlier hlater hopen
  exact (Visit.pair_sublist_course horder hlater.1 hstep' hwaits).trans
    (hafter.course hconfined (Visit.inOrder_step hconfined hread horder hstep'))

theorem Overtakes.mem_kept (h : Overtakes registry earlier between later after)
    (hconfined : registry.Confined) (hrun : run registry text = .ok pass)
    (htrail : trailOf registry text = before ++ earlier :: (between ++ later :: after))
    (hpasses : Passes registry {} (trailOf registry text) final)
    (hearlier : earlier.WaitsFor registry depth) (hlater : later.WaitsFor registry depth)
    (hopen : ∀ visit ∈ between, visit.endsEntry registry depth = false) :
    earlier.out registry ∈ final.kept.map State.moved := by
  have hleft := ((overtakes_iff hconfined hrun htrail hpasses hearlier.1 hlater.1).1 h).1
  have horder := hpasses.inOrder hconfined .initial
  obtain ⟨next, _, hstep, hbetween⟩ := passes_between hrun htrail
  rw [htrail, ← List.cons_append, ← List.append_assoc] at hpasses
  obtain ⟨middle, _, hrest⟩ := hpasses.append
  obtain ⟨rfl, hread, next', hstep', hafter⟩ := hrest.uncons
  have hlevel : final.ownerLevel = depth + 1 := by
    obtain ⟨frame, hstack, hroot, _⟩ :=
      Sheltered.of_passes hconfined hlater.1 hstep' hafter h.stays
    refine State.ownerLevel_eq ?_
    rw [State.ownerDepth?, hstack, hroot, List.tail_cons]
    exact hlater.2
  have hgoesOn : ∀ visit ∈ later :: after, visit.endsEntry registry depth = false := by
    refine List.forall_mem_cons.2 ⟨?_, fun visit hvisit => ?_⟩
    · exact Visit.not_endsEntry_of_lt fun _ => hlater.lt_depth
    · exact Visit.not_endsEntry_of_lt fun hstructural =>
        Nat.lt_of_lt_of_le hlater.lt_depth (h.stays visit hvisit hstructural)
  have hwaits : (depth + 1, earlier.out registry) ∈ final.agenda := by
    have hnext := mem_agenda_of_isRelocated hearlier.1 hstep
    rw [State.ownerLevel_eq hearlier.2] at hnext
    exact (Passes.cons hread hstep' hafter).mem_agenda
      (hbetween.mem_agenda hnext (not_endsEntry_of_level hopen)) (not_endsEntry_of_level hgoesOn)
  rw [← hlevel, horder.mem_agenda_iff] at hwaits
  exact hwaits.resolve_right hleft

theorem sublist_of_waitsFor (hconfined : registry.Confined) (hrun : run registry text = .ok pass)
    (htrail : trailOf registry text = before ++ earlier :: (between ++ later :: after))
    (hearlier : earlier.WaitsFor registry depth) (hlater : later.WaitsFor registry depth)
    (hopen : ∀ visit ∈ between, visit.endsEntry registry depth = false) :
    (¬ Overtakes registry earlier between later after →
      [earlier.out registry, later.out registry].Sublist pass.lines) ∧
    (Overtakes registry earlier between later after →
      [later.out registry, earlier.out registry].Sublist pass.lines) := by
  obtain ⟨final, hsteps, _, hcollect⟩ := runLines_ok hrun
  have hpasses : Passes registry {} (trailOf registry text) final :=
    passes_trail (fun _ hinput => InputLine.isRead_of_mem_ofLines hinput) hsteps
  have hiff := overtakes_iff hconfined hrun htrail hpasses hearlier.1 hlater.1
  obtain ⟨above, below, hcourse, hsolid⟩ := exists_course (hpasses.inOrder hconfined .initial)
  have hlines := solid_sublist_lines hcollect
  rw [hsolid] at hlines
  have hnodup : (final.lifted.map State.moved ++ final.kept.map State.moved).Nodup := by
    refine List.Nodup.sublist ?_ (List.Nodup.of_map _ (nodup_number_run hrun))
    exact ((List.sublist_append_left _ below).trans (List.sublist_append_right above _)).trans
      hlines
  -- In the course the lines have their order, and only the end of the document can change that.
  refine ⟨fun hapart => ?_, fun hovertakes => ?_⟩
  · have hpair := pair_sublist_course hconfined hrun htrail hpasses hearlier hlater hopen
    rw [hcourse] at hpair
    refine (pair_sublist_swap hpair ?_).trans hlines
    rintro ⟨hkept, hwaiting⟩
    refine hapart (hiff.2 ⟨fun hline => ?_, hwaiting⟩)
    exact (List.nodup_append.1 hnodup).2.2 _ hline _ hkept rfl
  · have hkept := hovertakes.mem_kept hconfined hrun htrail hpasses hearlier hlater hopen
    have hpair := State.pair_sublist_append (hiff.1 hovertakes).2 hkept
    exact ((hpair.trans (List.sublist_append_left _ below)).trans
      (List.sublist_append_right above _)).trans hlines

end Pair

/-- Two lines that are lifted out and belong to one item keep their order, unless the later one
overtakes the other; then they change places. -/
theorem lifted_order_iff (extra : RegistryExtension) {text : Text} {pass : Pass}
    {above inside between after : List Visit} {first earlier later : Visit} {item item' : Entry}
    {depth : Nat} (hrun : run (.extended extra) text = .ok pass)
    (htrail : trailOf (.extended extra) text =
      above ++ first :: (inside ++ earlier :: (between ++ later :: after)))
    (hearlier : earlier.isRelocated (.extended extra) = true)
    (hlater : later.isRelocated (.extended extra) = true)
    (howned : OwnedBy (.extended extra) item depth first inside earlier)
    (howned' : OwnedBy (.extended extra) item' depth first (inside ++ earlier :: between) later) :
    ([earlier.out (.extended extra), later.out (.extended extra)].Sublist pass.lines ↔
      ¬ Overtakes (.extended extra) earlier between later after) ∧
    (Overtakes (.extended extra) earlier between later after →
      [later.out (.extended extra), earlier.out (.extended extra)].Sublist pass.lines) := by
  have hsplit : trailOf (.extended extra) text =
      (above ++ first :: inside) ++ earlier :: (between ++ later :: after) := by
    rw [htrail, List.append_assoc, List.cons_append]
  have hopen : ∀ visit ∈ between, visit.endsEntry (.extended extra) depth = false :=
    fun visit hvisit =>
      howned'.goesOn visit (List.mem_append_right _ (List.mem_cons_of_mem _ hvisit))
  obtain ⟨hkeeps, hswaps⟩ := sublist_of_waitsFor (Registry.confined_extended extra) hrun hsplit
    ⟨hearlier, howned.owner⟩ ⟨hlater, howned'.owner⟩ hopen
  have hnodup := List.Nodup.of_map _ (nodup_number_run hrun)
  exact ⟨⟨fun hpair hovertakes => not_pair_sublist_of_nodup hnodup hpair (hswaps hovertakes),
    hkeeps⟩, hswaps⟩

/-- A task with attributes in its list of tags and among the arguments of its module, and a second
task. -/
def tagsThenModule : Text :=
  "- tags:\n    retries: 1\n  debug:\n    register: r\n- name: u\n".toList

/-- The second task ends the module, so the attributes keep their order. -/
theorem lifted_order_iff_tagsThenModule :
    ∃ (pass : Pass) (tags retries debug register name : Visit),
      run (.extended {}) tagsThenModule = .ok pass ∧
      trailOf (.extended {}) tagsThenModule = [tags, retries, debug, register, name] ∧
      retries.isRelocated (.extended {}) = true ∧ register.isRelocated (.extended {}) = true ∧
      [retries.out (.extended {}), register.out (.extended {})].Sublist pass.lines := by
  have hok : (run (.extended {}) tagsThenModule).toOption.isSome = true := by decide +kernel
  have hfacts : ofFive (fun tags retries debug register name =>
      retries.isRelocated (.extended {}) && register.isRelocated (.extended {}) &&
      (retries.ready (.extended {})).owner?.any (fun item =>
        OwnedBy (.extended {}) item 0 tags [] retries) &&
      (register.ready (.extended {})).owner?.any (fun item =>
        OwnedBy (.extended {}) item 0 tags [retries, debug] register) &&
      !decide (Overtakes (.extended {}) retries [debug] register [name]))
      (trailOf (.extended {}) tagsThenModule) = true := by decide +kernel
  obtain ⟨tags, retries, debug, register, name, htrail, hfacts⟩ := exists_of_ofFive hfacts
  simp only [Bool.and_eq_true, Bool.not_eq_true', Option.any_eq_true, decide_eq_true_eq,
    decide_eq_false_iff_not] at hfacts
  obtain ⟨⟨⟨⟨hearlier, hlater⟩, item, _, howned⟩, item', _, howned'⟩, hapart⟩ := hfacts
  cases hrun : run (.extended {}) tagsThenModule with
  | error failure =>
    rw [hrun] at hok
    cases hok
  | ok pass =>
    exact ⟨pass, tags, retries, debug, register, name, rfl, htrail, hearlier, hlater,
      (@lifted_order_iff {} tagsThenModule pass [] [] [debug] [name] tags retries register item
        item' 0 hrun htrail hearlier hlater howned howned').1.2 hapart⟩

/-- The same without the second task. -/
def moduleAtEnd : Text :=
  "- tags:\n    retries: 1\n  debug:\n    msg: x\n    register: r\n".toList

/-- The lines of a module that is open at the end of the document overtake those that its task has
kept. -/
theorem not_lifted_in_order :
    ¬ ∀ (registry : Registry) (text : Text) (pass : Pass)
        (above inside between after : List Visit) (first earlier later : Visit)
        (item item' : Entry) (depth : Nat),
        run registry text = .ok pass →
        trailOf registry text =
          above ++ first :: (inside ++ earlier :: (between ++ later :: after)) →
        earlier.isRelocated registry = true → later.isRelocated registry = true →
        OwnedBy registry item depth first inside earlier →
        OwnedBy registry item' depth first (inside ++ earlier :: between) later →
        [earlier.out registry, later.out registry].Sublist pass.lines := by
  intro hordered
  have hlines : (run .standard moduleAtEnd).toOption.any
      (fun pass => pass.lines.map OutLine.number == [1, 3, 4, 5, 2]) = true := by decide +kernel
  have hfacts : ofFive (fun tags retries debug msg register =>
      retries.isRelocated .standard && register.isRelocated .standard &&
      (retries.ready .standard).owner?.any (fun item =>
        OwnedBy .standard item 0 tags [] retries) &&
      (register.ready .standard).owner?.any (fun item =>
        OwnedBy .standard item 0 tags [retries, debug, msg] register) &&
      retries.input.number == 2 && register.input.number == 5)
      (trailOf .standard moduleAtEnd) = true := by decide +kernel
  obtain ⟨tags, retries, debug, msg, register, htrail, hfacts⟩ := exists_of_ofFive hfacts
  simp only [Bool.and_eq_true, Option.any_eq_true, decide_eq_true_eq, beq_iff_eq] at hfacts
  obtain ⟨⟨⟨⟨⟨hearlier, hlater⟩, item, _, howned⟩, item', _, howned'⟩, hsecond⟩, hfifth⟩ := hfacts
  cases hrun : run .standard moduleAtEnd with
  | error failure =>
    rw [hrun] at hlines
    cases hlines
  | ok pass =>
    rw [hrun] at hlines
    have hnumbers : pass.lines.map OutLine.number = [1, 3, 4, 5, 2] := beq_iff_eq.1 hlines
    have hpair := (hordered .standard moduleAtEnd pass [] [] [debug, msg] [] tags retries register
      item item' 0 hrun htrail hearlier hlater howned howned').map OutLine.number
    rw [hnumbers, List.map_cons, List.map_singleton, Visit.out_number, Visit.out_number, hsecond,
      hfifth] at hpair
    revert hpair
    decide

end Pass
end Reindent
