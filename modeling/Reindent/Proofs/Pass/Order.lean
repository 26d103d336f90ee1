import Reindent.Proofs.Pass.Agenda

/-!
# Reindent.Proofs.Pass.Order

Which line is written before which.

* `Passes`         — some visits take a pass from one state to another.
* `Visit.endsEntry` — the line ends the child with a given number of frames around it.
* `Visit.made`     — the state in which room has been made for the line: what it ends has been
  written.
* `releases_made`  — that is what waits for the children that the line ends.
* `agenda_step`, `solid_step` — then the line is written or waits.
* `State.Precedes` — one line stands above another, or will.
* `Carried.passes`, `Completes.sublist_lines` — it will to the end, and does in the output.
-/

namespace Reindent
namespace Pass

variable {registry : Registry}

/-! ### Stretches of a pass -/

/-- The visits take a pass from one state to another. -/
inductive Passes (registry : Registry) : State → List Visit → State → Prop
  | nil {state : State} : Passes registry state [] state
  | cons {visit : Visit} {next last : State} {visits : List Visit} :
      visit.input.line.IsRead →
      visit.state.step registry visit.input visit.rest = .ok next →
      Passes registry next visits last → Passes registry visit.state (visit :: visits) last

theorem passes_trail {inputs : List InputLine} {state final : State}
    (hread : ∀ input ∈ inputs, input.line.IsRead)
    (h : steps registry state inputs = .ok final) :
    Passes registry state (trail registry state inputs) final := by
  induction inputs generalizing state with
  | nil =>
    cases h
    exact .nil
  | cons input rest ih =>
    obtain ⟨hinput, hrest⟩ := List.forall_mem_cons.1 hread
    obtain ⟨next, hstep, hsteps⟩ := steps_cons_ok h
    simp only [trail, hstep]
    exact @Passes.cons registry ⟨state, input, rest⟩ next final _ hinput hstep (ih hrest hsteps)

theorem Passes.uncons {state last : State} {visit : Visit} {visits : List Visit}
    (h : Passes registry state (visit :: visits) last) :
    state = visit.state ∧ visit.input.line.IsRead ∧
      ∃ next, visit.state.step registry visit.input visit.rest = .ok next ∧
        Passes registry next visits last := by
  cases h with
  | cons hread hstep hrest => exact ⟨rfl, hread, _, hstep, hrest⟩

theorem Passes.append {state last : State} {visits below : List Visit}
    (h : Passes registry state (visits ++ below) last) :
    ∃ middle, Passes registry state visits middle ∧ Passes registry middle below last := by
  induction visits generalizing state with
  | nil => exact ⟨state, .nil, h⟩
  | cons visit visits ih =>
    cases h with
    | cons hread hstep hrest =>
      obtain ⟨middle, hvisits, hbelow⟩ := ih hrest
      exact ⟨middle, .cons hread hstep hvisits, hbelow⟩

theorem Passes.concat {state next : State} {visits : List Visit} {visit : Visit}
    (h : Passes registry state visits visit.state) (hread : visit.input.line.IsRead)
    (hstep : visit.state.step registry visit.input visit.rest = .ok next) :
    Passes registry state (visits ++ [visit]) next := by
  generalize hlast : visit.state = last at h
  induction h with
  | nil =>
    subst hlast
    exact .cons hread hstep .nil
  | cons hread' hstep' _ ih => exact .cons hread' hstep' (ih hlast)

theorem Passes.exists_of_mem {state last : State} {visits : List Visit} {visit : Visit}
    (h : Passes registry state visits last) (hvisit : visit ∈ visits) :
    ∃ above below next, visits = above ++ visit :: below ∧
      Passes registry state above visit.state ∧ visit.input.line.IsRead ∧
      visit.state.step registry visit.input visit.rest = .ok next ∧
      Passes registry next below last := by
  obtain ⟨above, below, rfl⟩ := List.append_of_mem hvisit
  obtain ⟨middle, habove, hbelow⟩ := h.append
  obtain ⟨rfl, hread, next, hstep, hbelow⟩ := hbelow.uncons
  exact ⟨above, below, next, rfl, habove, hread, hstep, hbelow⟩

theorem Passes.inOrder {state last : State} {visits : List Visit} (hconfined : registry.Confined)
    (h : Passes registry state visits last) (horder : state.InOrder) : last.InOrder := by
  induction h with
  | nil => exact horder
  | cons hread hstep _ ih => exact ih (Visit.inOrder_step hconfined hread horder hstep)

namespace State

variable {state next : State}

theorem record_congr_events (state : State) (events : List Event) (line : Line)
    (placement : Placement) :
    ((state.withEvents events).record line placement).agenda =
        (state.record line placement).agenda ∧
      ((state.withEvents events).record line placement).solid =
        (state.record line placement).solid := by
  have hscope : (state.withEvents events).scope = state.scope := rfl
  have hwith : ∀ scope, ((state.withEvents events).withScope scope).agenda =
        (state.withScope scope).agenda ∧
      ((state.withEvents events).withScope scope).solid = (state.withScope scope).solid := by
    intro scope
    cases hstack : state.stack <;> simp only [withScope, withEvents, hstack] <;> exact ⟨rfl, rfl⟩
  simp only [record, hscope, agenda_flushEntry, solid_flushEntry]
  exact ⟨(hwith _).1, congrArg _ (hwith _).2⟩

theorem agenda_openFrame {frame : Frame} (hframe : frame.waiting = [])
    (h : state.openFrame frame = .ok next) : next.agenda = state.agenda := by
  obtain ⟨hscope, hrelocations⟩ := List.append_eq_nil_iff.1 hframe
  have hstack := stack_openFrame h
  simp only [openFrame] at h
  split at h
  · cases h
    simp only at hstack
    rw [agenda, hstack, Stack.agenda_nil_cons, hscope, hrelocations]
    rfl
  · cases h

/-- A line that is settled makes nothing wait. -/
theorem agenda_settle {input : InputLine} {ahead : Option Line}
    (h : state.settle registry input ahead = .ok next) :
    next.agenda = (state.record input.line (state.place input.line)).agenda := by
  have hwrite : ((state.record input.line (state.place input.line)).writeAt input
      ((state.place input.line).indent input.line)).agenda =
        (state.record input.line (state.place input.line)).agenda := by
    refine agenda_congr (stack_writeAt _ _ _) (root_writeAt _ _ _) ?_
    simp only [writeAt]
    split <;> rfl
  rw [← hwrite]
  simp only [settle] at h
  split at h
  · rename_i hopening
    rw [agenda_openFrame (waiting_opening? hopening) h]
    rfl
  · cases h
    rfl

theorem solid_of_written {out : OutLine} {written : List OutLine}
    (h : next.written = out :: written) :
    next.solid =
      if out.trivia then written.filter (fun line => !line.trivia)
      else out :: written.filter fun line => !line.trivia := by
  rw [solid, h, List.filter_cons]
  cases out.trivia <;> rfl

end State

namespace Visit

variable {visit : Visit} {next : State}

/-- The line becomes the last child of the frame that is the innermost of `depth` frames, or of the
document. -/
def startsEntry (registry : Registry) (depth : Nat) (visit : Visit) : Bool :=
  visit.isPlaced registry && visit.depth registry == depth && (visit.placement registry).isEntry

/-- The line ends the child with `depth` frames around it: it ends one of these, or takes its
place. -/
def endsEntry (registry : Registry) (depth : Nat) (visit : Visit) : Bool :=
  visit.isStructural && (visit.depth registry < depth || visit.startsEntry registry depth)

theorem startsEntry_iff {depth : Nat} :
    visit.startsEntry registry depth = true ↔
      visit.isPlaced registry = true ∧ visit.depth registry = depth ∧
        ∃ indent, visit.placement registry = .entry indent := by
  simp only [startsEntry, Bool.and_eq_true, beq_iff_eq, and_assoc]
  cases visit.placement registry <;> simp [Placement.isEntry]

theorem endsEntry_iff {depth : Nat} :
    visit.endsEntry registry depth = true ↔
      visit.isStructural = true ∧
        (visit.depth registry < depth ∨ visit.startsEntry registry depth = true) := by
  simp [endsEntry]

theorem le_depth_of_not_endsEntry {depth : Nat} (hstructural : visit.isStructural = true)
    (h : visit.endsEntry registry depth = false) : depth ≤ visit.depth registry := by
  by_contra hlt
  rw [endsEntry_iff.2 ⟨hstructural, .inl (Nat.not_le.1 hlt)⟩] at h
  cases h

theorem not_isRelocated_of_isPlaced (h : visit.isPlaced registry = true) :
    visit.isRelocated registry = false := by
  rw [isRelocated, (isPlaced_iff.1 h).2, Bool.and_false]

theorem not_isPlaced_of_isRelocated (h : visit.isRelocated registry = true) :
    visit.isPlaced registry = false := by
  rw [isPlaced, (isRelocated_iff.1 h).2, Bool.not_true, Bool.and_false]

/-- A line further inside leaves a child as it is. -/
theorem not_endsEntry_of_lt {depth : Nat}
    (h : visit.isStructural = true → depth < visit.depth registry) :
    visit.endsEntry registry depth = false := by
  by_contra hends
  rw [Bool.not_eq_false, endsEntry_iff] at hends
  obtain ⟨hstructural, hless | hstarts⟩ := hends
  · exact absurd (h hstructural) (Nat.lt_asymm hless)
  · exact absurd (h hstructural) (Nat.not_lt.2 (Nat.le_of_eq (startsEntry_iff.1 hstarts).2.1))

theorem not_endsEntry_of_isRelocated {depth : Nat} (h : visit.isRelocated registry = true)
    (hle : depth ≤ visit.depth registry) : visit.endsEntry registry depth = false := by
  by_contra hends
  rw [Bool.not_eq_false, endsEntry_iff] at hends
  rcases hends.2 with hless | hstarts
  · omega
  · have hplaced := (startsEntry_iff.1 hstarts).1
    rw [not_isPlaced_of_isRelocated h] at hplaced
    cases hplaced

/-- The state after all that the line ends has been written. -/
def made (registry : Registry) (visit : Visit) : State :=
  if visit.isPlaced registry then
    (visit.ready registry).record visit.input.line (visit.placement registry)
  else if visit.isRelocated registry then visit.ready registry
  else visit.state

theorem made_of_isPlaced (h : visit.isPlaced registry = true) :
    visit.made registry =
      (visit.ready registry).record visit.input.line (visit.placement registry) := by
  rw [made, if_pos h]

theorem made_of_isRelocated (h : visit.isRelocated registry = true) :
    visit.made registry = visit.ready registry := by
  rw [made, not_isPlaced_of_isRelocated h, if_neg Bool.false_ne_true, if_pos h]

theorem made_of_not_isStructural (h : visit.isStructural = false) :
    visit.made registry = visit.state := by
  simp [made, isPlaced, isRelocated, h]

theorem not_isRelocated_of_not_isStructural (h : visit.isStructural = false) :
    visit.isRelocated registry = false := by
  rw [isRelocated, h, Bool.false_and]

theorem isPlaced_or_isRelocated (h : visit.isStructural = true) :
    visit.isPlaced registry = true ∨ visit.isRelocated registry = true := by
  cases hlifted : visit.isLifted registry with
  | true => exact .inr (isRelocated_iff.2 ⟨h, hlifted⟩)
  | false => exact .inl (isPlaced_iff.2 ⟨h, hlifted⟩)

theorem stack_made_length (h : visit.isStructural = true) :
    (visit.made registry).stack.length = visit.depth registry := by
  rcases isPlaced_or_isRelocated h with hplaced | hrelocated
  · rw [made_of_isPlaced hplaced, Visit.depth, placement]
    cases hstack : (visit.ready registry).stack with
    | nil => simp [State.record, State.scope, State.withScope, hstack]
    | cons frame rest => rw [State.stack_record_cons _ hstack, List.length_cons, List.length_cons]
  · rw [made_of_isRelocated hrelocated, Visit.depth]

/-- What is written before a line is what waits for the children that it ends. -/
theorem releases_made (registry : Registry) (visit : Visit) :
    ∃ released, State.Releases visit.state (visit.made registry) released ∧
      ∀ waiting ∈ released,
        ∃ depth, waiting.1 = depth + 1 ∧ visit.endsEntry registry depth = true := by
  have houtside : State.Releases visit.state { visit.state with body := none } [] := .of_eq rfl rfl
  obtain ⟨closed, hclosed, hlevel⟩ := State.releases_closeFor { visit.state with body := none }
    registry visit.input.line
  have hready : State.Releases visit.state (visit.ready registry) closed := houtside.trans hclosed
  have hinside : visit.isStructural = true → ∀ waiting ∈ closed,
      ∃ depth, waiting.1 = depth + 1 ∧ visit.endsEntry registry depth = true := by
    intro hstructural waiting hwaiting
    have hless : visit.depth registry + 1 < waiting.1 := hlevel waiting hwaiting
    refine ⟨waiting.1 - 1, by omega, endsEntry_iff.2 ⟨hstructural, .inl ?_⟩⟩
    omega
  cases hstructural : visit.isStructural with
  | false =>
    rw [made_of_not_isStructural hstructural]
    exact ⟨[], .of_eq rfl rfl, nofun⟩
  | true =>
    rcases isPlaced_or_isRelocated hstructural with hplaced | hrelocated
    · rw [made_of_isPlaced hplaced]
      refine ⟨_, hready.trans (State.releases_record _ _ _), ?_⟩
      intro waiting hwaiting
      rcases List.mem_append.1 hwaiting with hwaiting | hwaiting
      · exact hinside hstructural waiting hwaiting
      · refine ⟨visit.depth registry, fst_of_mem_waitAt hwaiting,
          endsEntry_iff.2 ⟨hstructural, .inr (startsEntry_iff.2 ⟨hplaced, rfl, ?_⟩)⟩⟩
        -- Only a new child replaces another.
        cases hplacement : visit.placement registry with
        | entry indent => exact ⟨indent, rfl⟩
        | member indent => simp [hplacement, Scope.record] at hwaiting
        | carried indent => simp [hplacement, Scope.record] at hwaiting
        | unchanged => simp [hplacement, Scope.record] at hwaiting
    · rw [made_of_isRelocated hrelocated]
      exact ⟨closed, hready, hinside hstructural⟩

/-- After a line has ended a child, nothing waits for it or inside it. -/
theorem level_le_of_mem_made {depth : Nat} (h : visit.endsEntry registry depth = true)
    {waiting : Nat × OutLine} (hwaiting : waiting ∈ (visit.made registry).agenda) :
    waiting.1 ≤ depth := by
  obtain ⟨hstructural, hless | hstarts⟩ := endsEntry_iff.1 h
  · have hlevel := State.level_le_of_mem_agenda hwaiting
    rw [stack_made_length hstructural] at hlevel
    omega
  · obtain ⟨hplaced, rfl, indent, hplacement⟩ := startsEntry_iff.1 hstarts
    rw [made_of_isPlaced hplaced, hplacement] at hwaiting
    exact State.level_le_of_mem_agenda_record hwaiting

/-- A line that stays where it is makes nothing wait, and a line that is lifted out waits for its
owner. -/
theorem agenda_step (hstep : visit.state.step registry visit.input visit.rest = .ok next) :
    if visit.isRelocated registry = true then
      next.agenda.Perm
        (((visit.ready registry).ownerLevel, visit.out registry) :: (visit.made registry).agenda)
    else next.agenda = (visit.made registry).agenda := by
  have houtcome := outcome_step registry visit
  rw [hstep] at houtcome
  generalize hresult : Except.ok next = result at houtcome
  cases houtcome with
  | text htext _ =>
    cases hresult
    have hloose : visit.isStructural = false := by simp [isStructural, htext]
    rw [not_isRelocated_of_not_isStructural hloose, if_neg Bool.false_ne_true,
      made_of_not_isStructural hloose]
    refine State.agenda_congr (State.stack_writeBody _ _ _) (State.root_writeBody _ _ _) ?_
    simp only [State.writeBody]
    split <;> rfl
  | loose _ hline =>
    cases hresult
    have hloose : visit.isStructural = false := by simp [isStructural, hline]
    rw [not_isRelocated_of_not_isStructural hloose, if_neg Bool.false_ne_true,
      made_of_not_isStructural hloose]
    refine State.agenda_congr (State.stack_passThrough _ _) (State.root_passThrough _ _) ?_
    simp only [State.passThrough]
    split <;> rfl
  | @relocated frame rest key events hrelocated hstack =>
    cases hresult
    rw [if_pos hrelocated, made_of_isRelocated hrelocated, out_of_relocated hrelocated hstack]
    exact @State.agenda_liftOut ((visit.ready registry).withEvents events) frame rest hstack
      visit.input key
  | @placed events hplaced =>
    rw [not_isRelocated_of_isPlaced hplaced, if_neg Bool.false_ne_true, made_of_isPlaced hplaced,
      State.agenda_settle hresult.symm]
    exact (State.record_congr_events _ _ _ _).1

theorem solid_step (hread : visit.input.line.IsRead)
    (hstep : visit.state.step registry visit.input visit.rest = .ok next) :
    next.solid =
      if visit.isRelocated registry = true ∨ (visit.out registry).trivia = true then
        (visit.made registry).solid
      else visit.out registry :: (visit.made registry).solid := by
  have houtcome := outcome_step registry visit
  rw [hstep] at houtcome
  generalize hresult : Except.ok next = result at houtcome
  cases houtcome with
  | text htext hbody =>
    cases hresult
    have hloose : visit.isStructural = false := by simp [isStructural, htext]
    rw [State.solid_of_written (State.written_writeBody _ hread _), ← out_of_text htext hbody,
      made_of_not_isStructural hloose, not_isRelocated_of_not_isStructural hloose]
    simp only [Bool.false_eq_true, false_or]
    rfl
  | loose htext hline =>
    cases hresult
    have hloose : visit.isStructural = false := by simp [isStructural, hline]
    rw [State.solid_of_written (State.written_passThrough _ hread), ← out_of_loose htext hline,
      made_of_not_isStructural hloose, not_isRelocated_of_not_isStructural hloose]
    simp only [Bool.false_eq_true, false_or]
    rfl
  | @relocated frame rest key events hrelocated hstack =>
    cases hresult
    have hlifted : ((visit.ready registry).withEvents events).stack = frame :: rest := hstack
    rw [if_pos (.inl hrelocated), made_of_isRelocated hrelocated]
    simp only [State.liftOut, hlifted]
    rfl
  | @placed events hplaced =>
    have hrecorded := (State.record_congr_events (visit.ready registry) events visit.input.line
      (visit.placement registry)).2
    have hwritten : next.written = visit.out registry ::
        (((visit.ready registry).withEvents events).record visit.input.line
          (visit.placement registry)).written := by
      rw [out_of_placed hplaced]
      exact State.written_settle hread hresult.symm
    rw [State.solid_of_written hwritten, not_isRelocated_of_isPlaced hplaced,
      made_of_isPlaced hplaced, ← hrecorded]
    simp only [Bool.false_eq_true, false_or]
    rfl

end Visit

/-! ### What a pass carries along -/

/-- What goes on to hold when lines come off the agenda, and when lines are added. -/
structure Carried (P : State → Prop) : Prop where
  drains : ∀ {state next : State} {released : List (Nat × OutLine)},
    State.Drains state next released → P state → P next
  grows : ∀ {state next : State}, state.solid <:+ next.solid → state.agenda ⊆ next.agenda →
    P state → P next

namespace Carried

variable {P : State → Prop} {visit : Visit} {next : State} (hcarried : Carried P)
include hcarried

theorem made (h : P visit.state) : P (visit.made registry) := by
  obtain ⟨_, hreleases, _⟩ := visit.releases_made registry
  exact hcarried.drains hreleases.drains h

theorem step_of_made (hread : visit.input.line.IsRead)
    (hstep : visit.state.step registry visit.input visit.rest = .ok next)
    (h : P (visit.made registry)) : P next := by
  refine hcarried.grows ?_ ?_ h
  · rw [Visit.solid_step hread hstep]
    split
    · exact List.suffix_rfl
    · exact List.suffix_cons _ _
  · have hagenda := Visit.agenda_step hstep
    split at hagenda
    · intro waiting hwaiting
      exact hagenda.mem_iff.2 (List.mem_cons_of_mem _ hwaiting)
    · rw [hagenda]
      exact List.Subset.refl _

theorem passes {state last : State} {visits : List Visit}
    (hpasses : Passes registry state visits last) (h : P state) : P last := by
  induction hpasses with
  | nil => exact h
  | cons hread hstep _ ih => exact ih (hcarried.step_of_made hread hstep (hcarried.made h))

theorem unwind {state : State} (horder : state.InOrder) (h : P state) : P (unwind state) := by
  obtain ⟨_, _, hdrains⟩ := drains_unwind horder
  exact hcarried.drains hdrains h

end Carried

namespace State

/-- The line has been written, or it waits at the given level. -/
def Holds (level : Nat) (line : OutLine) (state : State) : Prop :=
  line ∈ state.solid ∨ (level, line) ∈ state.agenda

theorem carried_holds (level : Nat) (line : OutLine) : Carried (Holds level line) := by
  refine ⟨?_, ?_⟩
  · rintro state next released hdrains (hsolid | hwaiting)
    · left
      rw [hdrains.solid]
      exact List.mem_append_right _ hsolid
    · rcases List.mem_append.1 (hdrains.agenda.mem_iff.1 hwaiting) with hreleased | hwaiting
      · left
        rw [hdrains.solid]
        exact List.mem_append_left _ (List.mem_reverse.2 (List.mem_map_of_mem hreleased))
      · exact .inr hwaiting
  · rintro state next hsolid hagenda (hwritten | hwaiting)
    · exact .inl (hsolid.subset hwritten)
    · exact .inr (hagenda hwaiting)

/-- `first` stands above `second`, or will. -/
inductive Precedes (first second : OutLine) (state : State) : Prop
  | written : List.Sublist [first, second] state.solid.reverse → Precedes first second state
  | awaits {level : Nat} : first ∈ state.solid → (level, second) ∈ state.agenda →
      Precedes first second state
  /-- `first` waits for an item further inside. -/
  | inside {level level' : Nat} : (level, first) ∈ state.agenda → (level', second) ∈ state.agenda →
      level' < level → Precedes first second state

theorem pair_sublist_append {α : Type} {first second : α} {lines lines' : List α}
    (hfirst : first ∈ lines) (hsecond : second ∈ lines') :
    [first, second].Sublist (lines ++ lines') :=
  (List.singleton_sublist.2 hfirst).append (List.singleton_sublist.2 hsecond)

theorem carried_precedes (first second : OutLine) : Carried (Precedes first second) := by
  refine ⟨?_, ?_⟩
  · intro state next released hdrains hprecedes
    have hsolid : next.solid.reverse = state.solid.reverse ++ released.map Prod.snd := by
      rw [hdrains.solid, List.reverse_append, List.reverse_reverse]
    have hwritten : ∀ {line}, line ∈ state.solid → line ∈ next.solid := by
      intro line hline
      rw [hdrains.solid]
      exact List.mem_append_right _ hline
    have hreleased : ∀ {waiting}, waiting ∈ released → waiting.2 ∈ next.solid := by
      intro waiting hwaiting
      rw [hdrains.solid]
      exact List.mem_append_left _ (List.mem_reverse.2 (List.mem_map_of_mem hwaiting))
    have hsplit : ∀ {waiting}, waiting ∈ state.agenda →
        waiting ∈ released ∨ waiting ∈ next.agenda := fun hwaiting =>
      List.mem_append.1 (hdrains.agenda.mem_iff.1 hwaiting)
    cases hprecedes with
    | written hbefore =>
      refine .written ?_
      rw [hsolid]
      exact hbefore.trans (List.sublist_append_left _ _)
    | awaits hfirst hsecond =>
      rcases hsplit hsecond with hsecond | hsecond
      · refine .written ?_
        rw [hsolid]
        exact pair_sublist_append (List.mem_reverse.2 hfirst) (List.mem_map_of_mem hsecond)
      · exact .awaits (hwritten hfirst) hsecond
    | @inside level level' hfirst hsecond hlevel =>
      obtain ⟨horder, _, hbelow⟩ := List.pairwise_append.1 hdrains.order
      rcases hsplit hfirst with hfirst | hfirst
      · rcases hsplit hsecond with hsecond | hsecond
        · refine .written ?_
          rw [hsolid]
          refine List.Sublist.trans ?_ (List.sublist_append_right _ _)
          have hpair : [(level, first), (level', second)].Sublist released := by
            obtain ⟨above, below, rfl⟩ := List.append_of_mem hfirst
            rcases List.mem_append.1 hsecond with hsecond | hsecond
            · have habove := (List.pairwise_append.1 horder).2.2 _ hsecond _ List.mem_cons_self
              exact absurd habove (Nat.not_le.2 hlevel)
            · rcases List.mem_cons.1 hsecond with hsame | hsecond
              · cases hsame
                exact absurd hlevel (Nat.lt_irrefl level)
              · exact ((List.singleton_sublist.2 hsecond).cons_cons _).trans
                  (List.sublist_append_right _ _)
          exact hpair.map Prod.snd
        · exact .awaits (hreleased hfirst) hsecond
      · rcases hsplit hsecond with hsecond | hsecond
        · exact absurd (hbelow _ hsecond _ hfirst) (Nat.not_le.2 hlevel)
        · exact .inside hfirst hsecond hlevel
  · intro state next hsolid hagenda hprecedes
    cases hprecedes with
    | written hbefore => exact .written (hbefore.trans (List.reverse_prefix.2 hsolid).sublist)
    | awaits hfirst hsecond => exact .awaits (hsolid.subset hfirst) (hagenda hsecond)
    | inside hfirst hsecond hlevel => exact .inside (hagenda hfirst) (hagenda hsecond) hlevel

theorem Holds.precedes {state : State} {first second : OutLine} {level inner : Nat}
    (h : state.Holds inner first) (hlevel : level < inner)
    (hsecond : (level, second) ∈ state.agenda) : state.Precedes first second := by
  rcases h with hwritten | hwaiting
  · exact .awaits hwritten hsecond
  · exact .inside hwaiting hsecond hlevel

end State

/-! ### Lines that wait -/

namespace Visit

variable {visit : Visit} {next : State} {level : Nat} {line : OutLine}

theorem trivia_of_isStructural (h : visit.isStructural = true) :
    (visit.out registry).trivia = false := by
  rw [out, not_isTrivia_of_isStructural (isStructural_iff.1 h).2, Bool.and_false]

/-- What waits for an item goes on to wait until a line ends it. -/
theorem mem_agenda_made (h : (level, line) ∈ visit.state.agenda)
    (hopen : ∀ depth, level = depth + 1 → visit.endsEntry registry depth = false) :
    (level, line) ∈ (visit.made registry).agenda := by
  obtain ⟨released, hreleases, hends⟩ := visit.releases_made registry
  rw [hreleases.agenda] at h
  refine (List.mem_append.1 h).resolve_left fun hreleased => ?_
  obtain ⟨depth, hlevel, hends⟩ := hends _ hreleased
  rw [hopen depth hlevel] at hends
  cases hends

/-- A line that is no trivia is written, or waits at the level of its owner. -/
theorem exists_holds_step (hread : visit.input.line.IsRead)
    (hstep : visit.state.step registry visit.input visit.rest = .ok next)
    (htrivia : (visit.out registry).trivia = false)
    (hinside : visit.isRelocated registry = true → level < (visit.ready registry).ownerLevel) :
    ∃ inner, level < inner ∧ next.Holds inner (visit.out registry) := by
  cases hrelocated : visit.isRelocated registry with
  | true =>
    have hagenda := agenda_step hstep
    rw [if_pos hrelocated] at hagenda
    exact ⟨_, hinside hrelocated, .inr (hagenda.mem_iff.2 List.mem_cons_self)⟩
  | false =>
    refine ⟨level + 1, Nat.lt_succ_self level, .inl ?_⟩
    rw [solid_step hread hstep, hrelocated, htrivia]
    simp

end Visit

section Waiting

variable {state last : State} {visits : List Visit} {level : Nat} {line : OutLine}

theorem Passes.mem_agenda (h : Passes registry state visits last)
    (hwaiting : (level, line) ∈ state.agenda)
    (hopen : ∀ visit ∈ visits, ∀ depth, level = depth + 1 →
      visit.endsEntry registry depth = false) : (level, line) ∈ last.agenda := by
  induction h with
  | nil => exact hwaiting
  | cons _ hstep _ ih =>
    obtain ⟨hvisit, hvisits⟩ := List.forall_mem_cons.1 hopen
    refine ih ?_ hvisits
    have hmade := Visit.mem_agenda_made hwaiting hvisit
    have hagenda := Visit.agenda_step hstep
    split at hagenda
    · exact hagenda.mem_iff.2 (List.mem_cons_of_mem _ hmade)
    · rw [hagenda]
      exact hmade

/-- Lines that come while another one waits precede it, unless they wait for the same item or for
one around it. -/
theorem Passes.precedes_of_mem {visit : Visit} (h : Passes registry state visits last)
    (hwaiting : (level, line) ∈ state.agenda)
    (hopen : ∀ visit ∈ visits, ∀ depth, level = depth + 1 →
      visit.endsEntry registry depth = false)
    (hvisit : visit ∈ visits) (htrivia : (visit.out registry).trivia = false)
    (hinside : visit.isRelocated registry = true → level < (visit.ready registry).ownerLevel) :
    last.Precedes (visit.out registry) line := by
  obtain ⟨above, below, next, rfl, habove, hread, hstep, hbelow⟩ := h.exists_of_mem hvisit
  have hstate := habove.mem_agenda hwaiting fun v hv => hopen v (List.mem_append_left _ hv)
  have hnext : (level, line) ∈ next.agenda :=
    (Passes.cons hread hstep .nil).mem_agenda hstate fun v hv =>
      hopen v (List.mem_append_right _ (by rw [List.mem_singleton.1 hv]; exact List.mem_cons_self))
  obtain ⟨inner, hlevel, hholds⟩ := Visit.exists_holds_step hread hstep htrivia hinside
  exact (State.carried_precedes _ _).passes hbelow (hholds.precedes hlevel hnext)

/-- Lines that came before one that waits precede it, on the same terms. -/
theorem Passes.precedes_of_mem_above {visit : Visit} (h : Passes registry state visits last)
    (hwaiting : (level, line) ∈ last.agenda) (hvisit : visit ∈ visits)
    (htrivia : (visit.out registry).trivia = false)
    (hinside : visit.isRelocated registry = true → level < (visit.ready registry).ownerLevel) :
    last.Precedes (visit.out registry) line := by
  obtain ⟨above, below, next, rfl, _, hread, hstep, hbelow⟩ := h.exists_of_mem hvisit
  obtain ⟨inner, hlevel, hholds⟩ := Visit.exists_holds_step hread hstep htrivia hinside
  exact ((State.carried_holds inner _).passes hbelow hholds).precedes hlevel hwaiting

end Waiting

/-! ### The output -/

/-- From the state, the lines `below` lead to the end of the document and to the output. -/
def Completes (registry : Registry) (pass : Pass) (state : State) (below : List Visit) : Prop :=
  ∃ final count, Passes registry state below final ∧ final.InOrder ∧
    collect count (unwind final) = .ok pass

namespace Completes

variable {pass : Pass} {state : State} {above below : List Visit} {visit : Visit}

theorem append (h : Completes registry pass state (above ++ below)) :
    ∃ middle, Passes registry state above middle ∧ Completes registry pass middle below := by
  obtain ⟨final, count, hpasses, horder, hcollect⟩ := h
  obtain ⟨middle, habove, hbelow⟩ := hpasses.append
  exact ⟨middle, habove, final, count, hbelow, horder, hcollect⟩

theorem uncons (h : Completes registry pass state (visit :: below)) :
    state = visit.state ∧ visit.input.line.IsRead ∧
      ∃ next, visit.state.step registry visit.input visit.rest = .ok next ∧
        Completes registry pass next below := by
  obtain ⟨final, count, hpasses, horder, hcollect⟩ := h
  obtain ⟨hstate, hread, next, hstep, hbelow⟩ := hpasses.uncons
  exact ⟨hstate, hread, next, hstep, final, count, hbelow, horder, hcollect⟩

/-- The order that two lines will stand in is the order in the output. -/
theorem sublist_lines (h : Completes registry pass state below) {first second : OutLine}
    (hprecedes : state.Precedes first second) : [first, second].Sublist pass.lines := by
  obtain ⟨final, count, hpasses, horder, hcollect⟩ := h
  have hfinal := (State.carried_precedes first second).unwind horder
    ((State.carried_precedes first second).passes hpasses hprecedes)
  obtain ⟨hempty, _⟩ := drains_unwind horder
  rw [(collect_ok hcollect).2.1]
  cases hfinal with
  | written hbefore => exact hbefore.trans List.filter_sublist.reverse
  | awaits _ hwaiting =>
    rw [hempty] at hwaiting
    cases hwaiting
  | inside hwaiting _ _ =>
    rw [hempty] at hwaiting
    cases hwaiting

end Completes

/-- A pass that succeeds completes its trail. -/
theorem completes_run (hconfined : registry.Confined) {text : Text} {pass : Pass}
    (h : run registry text = .ok pass) :
    Completes registry pass {} (trailOf registry text) := by
  obtain ⟨final, hsteps, _, hcollect⟩ := runLines_ok h
  have hpasses := passes_trail (fun _ hinput => InputLine.isRead_of_mem_ofLines hinput) hsteps
  exact ⟨final, _, hpasses, hpasses.inOrder hconfined .initial, hcollect⟩

end Pass
end Reindent
