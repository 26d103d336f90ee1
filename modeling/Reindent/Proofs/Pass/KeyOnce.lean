import Reindent.Proofs.Pass.Lookahead
import Reindent.Proofs.Pass.OwnKeys
import Reindent.Proofs.Pass.Routing

/-!
# Reindent.Proofs.Pass.KeyOnce

The keys of the lines that are lifted out.

* `Passes.exists_of_mem_waiting` — what waits comes from a line that was lifted out, and has its
  key.
* `Visit.exists_unset`  — when a line is lifted out, its key is not waiting in its frame, and its
  owner neither has it nor will receive it.
* `UniqueInFrame`, `UniqueInItem` — no other line with the key goes the same way.
* `relocated_keys_unique` — both hold of every line that is lifted out; an item that has its key in
  the end has set it further down.
* `not_relocated_keys_unique` — an item that does.
-/

namespace Reindent
namespace Stack

variable {root : Scope} {orphans : List Relocation}

theorem mem_waiting_handInnermost? {lines : List Relocation} {stack stack' : Stack}
    (h : handInnermost? lines stack = some stack') {r : Relocation} :
    r ∈ stack'.waiting ↔ r ∈ stack.waiting ∨ r ∈ lines := by
  rw [← Multiset.mem_coe, waiting_handInnermost? h, Multiset.mem_add, Multiset.mem_coe,
    Multiset.mem_coe]

end Stack

namespace Pass

variable {registry : Registry}

/-! ### Where the waiting lines come from -/

namespace State

variable {state next : State} {line : Line}

theorem waiting_flushEntry (state : State) (entry : Option Entry) :
    (state.flushEntry entry).waiting = state.waiting := by
  cases entry <;> rfl

theorem mem_waiting_handOver {lines : List Relocation} {r : Relocation}
    (h : r ∈ (state.handOver lines).waiting) : r ∈ state.waiting ∨ r ∈ lines := by
  simp only [handOver] at h
  split at h
  · rename_i stack hstack
    simp only [waiting, List.mem_append, Stack.mem_waiting_handInnermost? hstack] at h ⊢
    tauto
  · split at h
    · rename_i hroot
      simp only [waiting, List.mem_append, Scope.waiting_append hroot] at h ⊢
      tauto
    · simp only [waiting, List.mem_append] at h ⊢
      tauto

theorem waiting_closeTop_subset (state : State) :
    (state.closeTop false).waiting ⊆ state.waiting := by
  intro r hr
  cases hstack : state.stack with
  | nil =>
    simp only [closeTop, hstack] at hr
    exact hr
  | cons frame rest =>
    have hsplit : state.waiting =
        frame.waiting ++ ({ state with stack := rest }.flushEntry frame.scope.entry).waiting := by
      rw [waiting_flushEntry, waiting, waiting, hstack, Stack.waiting_cons]
      simp only [List.append_assoc]
    rw [hsplit]
    simp only [closeTop, hstack, release, Bool.false_eq_true, if_false] at hr
    split at hr
    · exact List.mem_append_right _ hr
    · rcases mem_waiting_handOver hr with hr | hr
      · exact List.mem_append_right _ hr
      · exact List.mem_append_left _ (List.mem_append_right _ hr)

theorem waiting_closeFor_subset (state : State) (registry : Registry) (line : Line) :
    (state.closeFor registry line).waiting ⊆ state.waiting :=
  closeFor_keeps (P := fun closed => closed.waiting ⊆ state.waiting)
    (fun closed h => List.Subset.trans (waiting_closeTop_subset closed) h) registry line
    (List.Subset.refl _)

theorem waiting_record_subset (state : State) (line : Line) (placement : Placement) :
    (state.record line placement).waiting ⊆ state.waiting := by
  have hscope : (state.scope.record line placement).1.waiting ⊆ state.scope.waiting := by
    rw [← waiting_record state.scope line placement]
    exact List.subset_append_right _ _
  intro r hr
  rw [record, waiting_flushEntry] at hr
  cases hstack : state.stack with
  | nil =>
    simp only [State.scope, withScope, hstack, waiting, List.mem_append] at hscope hr ⊢
    exact hr.imp_left (Or.imp_right fun h => hscope h)
  | cons frame rest =>
    simp only [State.scope, withScope, hstack, waiting, Stack.waiting_cons, Frame.waiting,
      List.mem_append] at hscope hr ⊢
    exact hr.imp_left (Or.imp_left (Or.imp_left (Or.imp_left fun h => hscope h)))

theorem waiting_openFrame {frame : Frame} (hframe : frame.waiting = [])
    (h : state.openFrame frame = .ok next) : next.waiting = state.waiting := by
  have hstack := stack_openFrame h
  simp only [openFrame] at h
  split at h
  · cases h
    simp only at hstack
    rw [waiting, hstack, Stack.waiting_cons, hframe, List.nil_append]
    rfl
  · cases h

theorem waiting_settle {input : InputLine} {ahead : Option Line}
    (h : state.settle registry input ahead = .ok next) :
    next.waiting = (state.record input.line (state.place input.line)).waiting := by
  rw [← waiting_writeAt (state.record input.line (state.place input.line)) input
    ((state.place input.line).indent input.line)]
  simp only [settle] at h
  split at h
  · rename_i hopening
    rw [waiting_openFrame (waiting_opening? hopening) h]
    rfl
  · cases h
    rfl

theorem mem_waiting_liftOut {input : InputLine} {key : Text} {r : Relocation}
    (h : r ∈ (state.liftOut input key).waiting) :
    r ∈ state.waiting ∨ key = r.key ∧ input.number = r.lineNumber := by
  cases hstack : state.stack with
  | nil =>
    simp only [liftOut, hstack] at h
    exact .inl h
  | cons frame rest =>
    simp only [liftOut, hstack, waiting, Stack.waiting_cons, Frame.waiting, List.mem_append,
      List.mem_singleton] at h
    by_cases hnew : key = r.key ∧ input.number = r.lineNumber
    · exact .inr hnew
    · left
      have hother : ∀ content ending indent origin,
          r ≠ ⟨key, content, ending, indent, origin, input.number⟩ := by
        rintro _ _ _ _ rfl
        exact hnew ⟨rfl, rfl⟩
      simp only [hother, or_false] at h
      simpa only [waiting, hstack, Stack.waiting_cons, Frame.waiting, List.mem_append] using h

theorem pending_subset_waiting {item : Entry} (h : state.owner? = some item) :
    item.pending ⊆ state.waiting := by
  intro r hr
  rw [owner?, Stack.ownerItem?, Option.or_eq_some_iff] at h
  rw [waiting, List.mem_append, List.mem_append]
  rcases h with hframe | ⟨_, hroot⟩
  · obtain ⟨frame, hmem, hitem⟩ := List.exists_of_findSome?_eq_some hframe
    rw [← Scope.waiting_of_item? hitem] at hr
    exact .inl (.inl (List.mem_flatMap.2
      ⟨frame, List.mem_of_mem_tail hmem, List.mem_append_left _ hr⟩))
  · rw [← Scope.waiting_of_item? hroot] at hr
    exact .inl (.inr hr)

/-- The key of a line that is lifted out neither waits in the frame nor is set by the owner. -/
theorem unset_of_verdict {ahead : Option Line} {key : Text} {frame : Frame}
    (h : state.verdict registry line ahead = .stranded key frame) :
    Relocation.sets key frame.relocations = false ∧
      ∀ item, state.owner? = some item → item.hasKey key = false := by
  simp only [verdict] at h
  split at h
  · split at h
    · split at h
      · cases h
      · rename_i hunset
        cases h
        simp only [Bool.or_eq_true, not_or, Bool.not_eq_true, Option.any_eq_false] at hunset
        exact hunset
    · cases h
  · cases h

end State

namespace Visit

variable {visit : Visit} {next : State}

theorem step_of_isRelocated (h : visit.isRelocated registry = true) :
    ∃ key frame events, visit.input.line.key = some key ∧ visit.frame? registry = some frame ∧
      (visit.ready registry).verdict registry visit.input.line
        (InputLine.nextStructural? visit.rest) = .stranded key frame ∧
      visit.state.step registry visit.input visit.rest =
        .ok (((visit.ready registry).withEvents events).liftOut visit.input key) := by
  obtain ⟨hstructural, hlifted⟩ := isRelocated_iff.1 h
  obtain ⟨htext, hline⟩ := isStructural_iff.1 hstructural
  simp only [isLifted] at hlifted
  split at hlifted
  · rename_i key frame hverdict
    obtain ⟨hframe, hkey, _⟩ := stranded_of_verdict hverdict
    have hready : visit.ready registry =
        { visit.state with body := none }.closeFor registry visit.input.line := rfl
    refine ⟨key, frame, ((visit.ready registry).log
      (.stranded visit.input.number key frame.role frame.key)).events, hkey, hframe, hverdict, ?_⟩
    rw [step_of_not_isText htext, hline, if_pos rfl, State.structural]
    simp only [← hready, hverdict]
    rfl
  · cases hlifted
  · cases hlifted

theorem waiting_ready_subset (registry : Registry) (visit : Visit) :
    (visit.ready registry).waiting ⊆ visit.state.waiting :=
  State.waiting_closeFor_subset { visit.state with body := none } registry visit.input.line

theorem mem_waiting_step (hstep : visit.state.step registry visit.input visit.rest = .ok next)
    {r : Relocation} (h : r ∈ next.waiting) :
    r ∈ visit.state.waiting ∨ visit.isRelocated registry = true ∧
      visit.input.line.key = some r.key ∧ visit.input.number = r.lineNumber := by
  cases hstructural : visit.isStructural with
  | false =>
    left
    have houtcome := outcome_step registry visit
    rw [hstep] at houtcome
    generalize hresult : Except.ok next = result at houtcome
    cases houtcome with
    | text _ _ =>
      cases hresult
      rwa [State.waiting_writeBody] at h
    | loose _ _ =>
      cases hresult
      rw [State.waiting_passThrough] at h
      exact h
    | relocated hrelocated _ =>
      rw [not_isRelocated_of_not_isStructural hstructural] at hrelocated
      cases hrelocated
    | placed hplaced =>
      rw [isPlaced, hstructural] at hplaced
      cases hplaced
  | true =>
    have hroute : visit.isPlaced registry = true ∨ visit.isRelocated registry = true :=
      isPlaced_or_isRelocated hstructural
    rcases hroute with hplaced | hrelocated
    · left
      obtain ⟨events, hsettle⟩ := step_of_isPlaced hplaced
      rw [hstep] at hsettle
      rw [State.waiting_settle hsettle.symm] at h
      have hwaiting : r ∈ ((visit.ready registry).withEvents events).waiting :=
        State.waiting_record_subset _ _ _ h
      exact waiting_ready_subset registry visit hwaiting
    · obtain ⟨key, frame, events, hkey, _, _, hlifted⟩ := step_of_isRelocated hrelocated
      rw [hstep, Except.ok.injEq] at hlifted
      rw [hlifted] at h
      rcases State.mem_waiting_liftOut h with hwaiting | ⟨rfl, hnumber⟩
      · exact .inl (waiting_ready_subset registry visit hwaiting)
      · exact .inr ⟨hrelocated, hkey, hnumber⟩

end Visit

/-- What waits comes from a line that was lifted out, and has its key. -/
theorem Passes.exists_of_mem_waiting {state last : State} {visits : List Visit} {r : Relocation}
    (h : Passes registry state visits last) (hr : r ∈ last.waiting) :
    r ∈ state.waiting ∨ ∃ visit ∈ visits, visit.isRelocated registry = true ∧
      visit.input.line.key = some r.key ∧ visit.input.number = r.lineNumber := by
  induction h with
  | nil => exact .inl hr
  | @cons visit next last visits _ hstep _ ih =>
    rcases ih hr with hnext | ⟨other, hother, horigin⟩
    · rcases Visit.mem_waiting_step hstep hnext with hstate | horigin
      · exact .inl hstate
      · exact .inr ⟨visit, List.mem_cons_self, horigin⟩
    · exact .inr ⟨other, List.mem_cons_of_mem _ hother, horigin⟩

theorem nodup_number_trail {text : Text} {pass : Pass} (hrun : run registry text = .ok pass) :
    ((trailOf registry text).map fun visit => visit.input.number).Nodup := by
  have hnodup := nodup_number_run hrun
  rwa [((perm_trail hrun).map OutLine.number).nodup_iff, List.map_map] at hnodup

theorem visit_of_number {text : Text} {pass : Pass} (hrun : run registry text = .ok pass)
    {visit visit' : Visit} (hvisit : visit ∈ trailOf registry text)
    (hvisit' : visit' ∈ trailOf registry text)
    (hnumber : visit.input.number = visit'.input.number) : visit = visit' :=
  List.inj_on_of_nodup_map (nodup_number_trail hrun) hvisit hvisit' hnumber

/-! ### Lines that go the same way -/

section Earlier

variable {text : Text} {pass : Pass} {before after : List Visit} {earlier later : Visit}

theorem key_of_mem_waiting (hrun : run registry text = .ok pass)
    (htrail : trailOf registry text = before ++ after) (hearlier : earlier ∈ before) {state : State}
    (hpasses : Passes registry {} before state) {r : Relocation} (hr : r ∈ state.waiting)
    (hout : State.moved r = earlier.out registry) : earlier.input.line.key = some r.key := by
  rcases hpasses.exists_of_mem_waiting hr with hinitial | ⟨other, hother, _, hkey, hnumber⟩
  · cases hinitial
  · have hmem : ∀ visit ∈ before, visit ∈ trailOf registry text := by
      intro visit hvisit
      rw [htrail]
      exact List.mem_append_left _ hvisit
    have hsame : earlier.input.number = other.input.number := by
      rw [hnumber, ← Visit.out_number registry earlier, ← hout]
      rfl
    rw [visit_of_number hrun (hmem _ hearlier) (hmem _ hother) hsame, hkey]

theorem key_ne_of_waiting (hrun : run registry text = .ok pass)
    (htrail : trailOf registry text = before ++ later :: after) (hearlier : earlier ∈ before)
    (hbefore : Passes registry {} before later.state) (hlater : later.isRelocated registry = true)
    {frame : Frame} (hframe : later.frame? registry = some frame) {r : Relocation}
    (hout : State.moved r = earlier.out registry)
    (hr : r ∈ frame.relocations ∨
      ∃ item, (later.ready registry).owner? = some item ∧ r ∈ item.pending) :
    earlier.input.line.key ≠ later.input.line.key := by
  obtain ⟨key, around, _, hkey, haround, hverdict, _⟩ := Visit.step_of_isRelocated hlater
  obtain rfl := Option.some.inj (hframe.symm.trans haround)
  obtain ⟨hwaiting, howner⟩ := State.unset_of_verdict hverdict
  have hother : r.key ≠ key ∧ r ∈ (later.ready registry).waiting := by
    rcases hr with hr | ⟨item, hitem, hr⟩
    · obtain ⟨rest, hstack⟩ := List.head?_eq_some_iff.1 hframe
      refine ⟨fun hsame => ?_, ?_⟩
      · rw [Relocation.sets, List.any_eq_false] at hwaiting
        exact hwaiting r hr (by simp [hsame])
      · rw [State.waiting, hstack, Stack.waiting_cons, Frame.waiting]
        simp [hr]
    · have hunset := howner item hitem
      rw [Entry.hasKey, Bool.or_eq_false_iff, Relocation.sets, List.any_eq_false] at hunset
      exact ⟨fun hsame => hunset.2 r hr (by simp [hsame]), State.pending_subset_waiting hitem hr⟩
  rw [key_of_mem_waiting hrun htrail hearlier hbefore
    (Visit.waiting_ready_subset registry later hother.2) hout, hkey]
  exact fun hsame => hother.1 (Option.some.inj hsame)

theorem passes_between (hrun : run registry text = .ok pass) {between : List Visit}
    (htrail : trailOf registry text = before ++ earlier :: (between ++ later :: after)) :
    ∃ next, Passes registry {} (before ++ earlier :: between) later.state ∧
      earlier.state.step registry earlier.input earlier.rest = .ok next ∧
      Passes registry next between later.state := by
  obtain ⟨final, hsteps, _, _⟩ := runLines_ok hrun
  have hpasses : Passes registry {} (trailOf registry text) final :=
    passes_trail (fun _ hinput => InputLine.isRead_of_mem_ofLines hinput) hsteps
  rw [htrail, ← List.cons_append, ← List.append_assoc] at hpasses
  obtain ⟨middle, habove, hbelow⟩ := hpasses.append
  obtain ⟨rfl, _⟩ := hbelow.uncons
  obtain ⟨_, _, hrest⟩ := habove.append
  obtain ⟨rfl, _, next, hstep, hbetween⟩ := hrest.uncons
  exact ⟨next, habove, hstep, hbetween⟩

theorem key_ne_of_sameFrame (hconfined : registry.Confined) (hrun : run registry text = .ok pass)
    {between : List Visit}
    (htrail : trailOf registry text = before ++ earlier :: (between ++ later :: after))
    (hearlier : earlier.isRelocated registry = true) (hlater : later.isRelocated registry = true)
    (hopen : ∀ visit ∈ between ++ [later], visit.isStructural = true →
      earlier.depth registry ≤ visit.depth registry) :
    earlier.input.line.key ≠ later.input.line.key := by
  obtain ⟨next, hbefore, hstep, hbetween⟩ := passes_between hrun htrail
  have hsheltered := Sheltered.of_passes hconfined hearlier hstep hbetween fun visit hvisit =>
    hopen visit (List.mem_append_left _ hvisit)
  have houter := Visit.length_outer_of_isRelocated hearlier
  have hle := hopen later (List.mem_append_right _ List.mem_cons_self)
    (Visit.isRelocated_iff.1 hlater).1
  have hready : later.ready registry = { later.state with body := none } :=
    hsheltered.ready_eq (by omega)
  obtain ⟨frame, hstack, _, _, hline⟩ := hsheltered
  obtain ⟨r, hr, hout⟩ := List.mem_map.1 hline
  have hframe : later.frame? registry = some frame := by
    rw [Visit.frame?, hready]
    simp only [hstack, List.head?_cons]
  rw [← List.cons_append, ← List.append_assoc] at htrail
  exact key_ne_of_waiting hrun htrail (List.mem_append_right _ List.mem_cons_self) hbefore hlater
    hframe hout (.inl hr)

theorem mem_agenda_of_waitsFor {next : State} {between : List Visit} {depth : Nat}
    (hstep : earlier.state.step registry earlier.input earlier.rest = .ok next)
    (hbetween : Passes registry next between later.state)
    (hearlier : earlier.WaitsFor registry depth) (hlater : later.WaitsFor registry depth)
    (hopen : ∀ visit ∈ between, visit.endsEntry registry depth = false) :
    ((later.ready registry).ownerLevel, earlier.out registry) ∈ (later.ready registry).agenda := by
  have hnext := mem_agenda_of_isRelocated hearlier.1 hstep
  rw [State.ownerLevel_eq hearlier.2] at hnext
  have hwaits := hbetween.mem_agenda hnext (not_endsEntry_of_level hopen)
  rw [State.ownerLevel_eq hlater.2, ← Visit.made_of_isRelocated hlater.1]
  refine Visit.mem_agenda_made hwaits fun d hd => ?_
  obtain rfl := Nat.succ.inj hd
  exact Visit.not_endsEntry_of_isRelocated hlater.1 (Nat.le_of_lt hlater.lt_depth)

theorem key_ne_of_waitsFor (hconfined : registry.Confined) (hrun : run registry text = .ok pass)
    {between : List Visit} {depth : Nat}
    (htrail : trailOf registry text = before ++ earlier :: (between ++ later :: after))
    (hearlier : earlier.WaitsFor registry depth) (hlater : later.WaitsFor registry depth)
    (hopen : ∀ visit ∈ between, visit.endsEntry registry depth = false) :
    earlier.input.line.key ≠ later.input.line.key := by
  obtain ⟨next, hbefore, hstep, hbetween⟩ := passes_between hrun htrail
  obtain ⟨key, frame, hframe, _⟩ := Visit.exists_stranded hlater.1
  obtain ⟨_, item, _, hitem, _⟩ := Stack.item_of_itemDepth? hlater.2
  have horder := Visit.inOrder_ready registry (hbefore.inOrder hconfined .initial)
  have hready := mem_agenda_of_waitsFor hstep hbetween hearlier hlater hopen
  have hwaiting : ∃ r, State.moved r = earlier.out registry ∧ (r ∈ frame.relocations ∨
      ∃ item, (later.ready registry).owner? = some item ∧ r ∈ item.pending) := by
    rw [horder.mem_agenda_iff, State.kept_of_owner? hitem, State.lifted_of_head? hframe] at hready
    rcases hready with hline | hline
    · obtain ⟨r, hr, hout⟩ := List.mem_map.1 hline
      exact ⟨r, hout, .inr ⟨item, hitem, hr⟩⟩
    · obtain ⟨r, hr, hout⟩ := List.mem_map.1 hline
      exact ⟨r, hout, .inl hr⟩
  obtain ⟨r, hout, hr⟩ := hwaiting
  rw [← List.cons_append, ← List.append_assoc] at htrail
  exact key_ne_of_waiting hrun htrail (List.mem_append_right _ List.mem_cons_self) hbefore
    hlater.1 hframe hout hr

end Earlier

/-! ### Keys that are set once -/

/-- While the frame goes on that the line `lifted` was lifted out of, no other line with the key is
lifted out of it. -/
def UniqueInFrame (registry : Registry) (key : Text) (lifted : Visit) (after : List Visit) : Prop :=
  ∀ within other rest, after = within ++ other :: rest →
    (∀ visit ∈ within ++ [other], visit.isStructural = true →
      lifted.depth registry ≤ visit.depth registry) →
    other.isRelocated registry = true → other.input.line.key ≠ some key

/-- The key of the line `lifted` in the item with `depth` frames around it that the line `first`
has started: no line above sets it, no other line that goes to the item has it, and the item has it
in the end exactly if a line below sets it. -/
structure UniqueInItem (registry : Registry) (key : Text) (depth : Nat) (above : List Visit)
    (first : Visit) (between : List Visit) (lifted : Visit) (after : List Visit) : Prop where
  unset : ∀ visit ∈ first :: between, ¬ visit.Sets registry depth key
  alone : ∀ within rest, after = within ++ rest →
    (∀ visit ∈ within, visit.endsEntry registry depth = false) →
    ∀ other ∈ between ++ within, other.WaitsFor registry depth →
      other.input.line.key ≠ some key
  ownKeys : ∀ within rest, after = within ++ rest →
    (∀ visit ∈ within, visit.endsEntry registry depth = false) →
    ∃ last child, Passes registry {} (above ++ first :: (between ++ lifted :: within)) last ∧
      last.childAt? depth = some child ∧ child.item = true ∧
      (key ∈ child.keys ↔ ∃ visit ∈ within, visit.Sets registry depth key)

section Owned

variable {text : Text} {pass : Pass} {above between after : List Visit} {first lifted : Visit}
  {item : Entry} {depth : Nat} {key : Text}

theorem OwnedBy.not_sets (howned : OwnedBy registry item depth first between lifted)
    (hfirst : Passes registry first.state (first :: between) lifted.state)
    (hlifted : lifted.isRelocated registry = true)
    (howner : (lifted.ready registry).owner? = some item) (hunset : item.hasKey key = false) :
    ∀ visit ∈ first :: between, ¬ visit.Sets registry depth key := by
  obtain ⟨child, hchild, _, _, hkeys⟩ := hfirst.ownKeys howned.starts howned.goesOn
  obtain ⟨_, frame, hframe, _⟩ := Visit.exists_stranded hlifted
  rw [Visit.childAt?_of_owner? howner howned.owner (by rw [hframe]; nofun),
    Option.some.injEq] at hchild
  intro visit hvisit hsets
  have hmem : key ∈ item.cleared.keys := by
    rw [hchild]
    exact (hkeys key).2 ⟨visit, hvisit, hsets⟩
  rw [Entry.hasKey, Bool.or_eq_false_iff] at hunset
  have hnot : key ∉ item.keys := by simpa using hunset.1
  exact hnot hmem

theorem OwnedBy.key_ne (howned : OwnedBy registry item depth first between lifted)
    (hconfined : registry.Confined) (hrun : run registry text = .ok pass) {within rest : List Visit}
    (htrail : trailOf registry text = above ++ first :: (between ++ lifted :: (within ++ rest)))
    (hlifted : lifted.isRelocated registry = true)
    (hopen : ∀ visit ∈ within, visit.endsEntry registry depth = false) {other : Visit}
    (hother : other ∈ between ++ within) (hwaits : other.WaitsFor registry depth) :
    other.input.line.key ≠ lifted.input.line.key := by
  rcases List.mem_append.1 hother with hother | hother
  · obtain ⟨inner, outer, rfl⟩ := List.append_of_mem hother
    have hsplit : trailOf registry text =
        (above ++ first :: inner) ++ other :: (outer ++ lifted :: (within ++ rest)) := by
      rw [htrail]
      simp
    exact key_ne_of_waitsFor hconfined hrun hsplit hwaits ⟨hlifted, howned.owner⟩
      fun visit hvisit => howned.goesOn visit (by simp [hvisit])
  · obtain ⟨inner, outer, rfl⟩ := List.append_of_mem hother
    have hsplit : trailOf registry text =
        (above ++ first :: between) ++ lifted :: (inner ++ other :: (outer ++ rest)) := by
      rw [htrail]
      simp
    exact (key_ne_of_waitsFor hconfined hrun hsplit ⟨hlifted, howned.owner⟩ hwaits
      fun visit hvisit => hopen visit (by simp [hvisit])).symm

/-- Further down, the item gets the keys of its own lines. -/
theorem OwnedBy.mem_keys_iff (howned : OwnedBy registry item depth first between lifted)
    {within : List Visit} {last : State}
    (hfirst : Passes registry first.state (first :: (between ++ lifted :: within)) last)
    (hlifted : lifted.isRelocated registry = true) (hless : depth < lifted.depth registry)
    (hopen : ∀ visit ∈ within, visit.endsEntry registry depth = false)
    (hunset : ∀ visit ∈ first :: between, ¬ visit.Sets registry depth key) :
    ∃ child, last.childAt? depth = some child ∧ child.item = true ∧
      (key ∈ child.keys ↔ ∃ visit ∈ within, visit.Sets registry depth key) := by
  have hgoesOn : ∀ visit ∈ between ++ lifted :: within, visit.endsEntry registry depth = false := by
    intro visit hvisit
    rcases List.mem_append.1 hvisit with hvisit | hvisit
    · exact howned.goesOn visit hvisit
    · rcases List.mem_cons.1 hvisit with rfl | hvisit
      · exact Visit.not_endsEntry_of_isRelocated hlifted (Nat.le_of_lt hless)
      · exact hopen visit hvisit
  have hstays : ¬ lifted.Sets registry depth key := by
    rintro ⟨hown, _⟩
    simp [Visit.isOwnKey, Visit.not_isPlaced_of_isRelocated hlifted] at hown
  obtain ⟨child, hchild, hitem, _, hkeys⟩ := hfirst.ownKeys howned.starts hgoesOn
  refine ⟨child, hchild, ?_, ?_⟩
  · have hkind := congrArg Child.isItem howned.child
    rw [hitem]
    exact hkind.symm.trans howned.isItem
  · rw [hkeys key, ← List.cons_append]
    constructor
    · rintro ⟨visit, hvisit, hsets⟩
      rcases List.mem_append.1 hvisit with hvisit | hvisit
      · exact absurd hsets (hunset visit hvisit)
      · rcases List.mem_cons.1 hvisit with rfl | hvisit
        · exact absurd hsets hstays
        · exact ⟨visit, hvisit, hsets⟩
    · rintro ⟨visit, hvisit, hsets⟩
      exact ⟨visit, List.mem_append_right _ (List.mem_cons_of_mem _ hvisit), hsets⟩

end Owned

/-- When a line is lifted out, its key is not set in the item that it belongs to, and no other line
that goes there, or comes from the same frame, has it. What the item sets further down is not looked
at. -/
theorem relocated_keys_unique (extra : RegistryExtension) {text : Text} {pass : Pass}
    {before after : List Visit} {lifted : Visit} (hrun : run (.extended extra) text = .ok pass)
    (htrail : trailOf (.extended extra) text = before ++ lifted :: after)
    (hlifted : lifted.isRelocated (.extended extra) = true) :
    ∃ key, lifted.input.line.key = some key ∧ UniqueInFrame (.extended extra) key lifted after ∧
      ∀ item, (lifted.ready (.extended extra)).owner? = some item →
        item.hasKey key = false ∧
        ∃ depth above first between, before = above ++ first :: between ∧
          OwnedBy (.extended extra) item depth first between lifted ∧
          UniqueInItem (.extended extra) key depth above first between lifted after := by
  have hconfined := Registry.confined_extended extra
  obtain ⟨final, hsteps, _, _⟩ := runLines_ok hrun
  have hpasses : Passes (.extended extra) {} (trailOf (.extended extra) text) final :=
    passes_trail (fun _ hinput => InputLine.isRead_of_mem_ofLines hinput) hsteps
  rw [htrail] at hpasses
  obtain ⟨middle, hbefore, hrest⟩ := hpasses.append
  obtain ⟨rfl, _⟩ := hrest.uncons
  obtain ⟨key, frame, _, hkey, hframe, hverdict, _⟩ := Visit.step_of_isRelocated hlifted
  refine ⟨key, hkey, ?_, ?_⟩
  · rintro within other rest rfl hopen hother hsame
    exact key_ne_of_sameFrame hconfined hrun htrail hlifted hother hopen (hkey.trans hsame.symm)
  · intro item howner
    obtain ⟨depth, above, first, between, rfl, howned, hless, _⟩ :=
      exists_ownedBy hlifted hbefore (hbefore.inOrder hconfined .initial) howner
    have hitem := (State.unset_of_verdict hverdict).2 item howner
    obtain ⟨_, _, hfirst⟩ := hbefore.append
    obtain ⟨rfl, _⟩ := hfirst.uncons
    have hunset := howned.not_sets hfirst hlifted howner hitem
    refine ⟨hitem, depth, above, first, between, rfl, howned, hunset, ?_, ?_⟩
    · rintro within rest rfl hopen other hother hwaits
      rw [List.append_assoc, List.cons_append] at htrail
      rw [← hkey]
      exact howned.key_ne hconfined hrun htrail hlifted hopen hother hwaits
    · rintro within rest rfl hopen
      have hsplit : (above ++ first :: between) ++ lifted :: (within ++ rest) =
          (above ++ first :: (between ++ lifted :: within)) ++ rest := by simp
      rw [hsplit] at hpasses
      obtain ⟨last, hlast, _⟩ := hpasses.append
      obtain ⟨_, _, hbelow⟩ := hlast.append
      obtain ⟨rfl, _⟩ := hbelow.uncons
      obtain ⟨child, hchild⟩ := howned.mem_keys_iff hbelow hlifted hless hopen hunset
      exact ⟨last, child, hlast, hchild⟩

/-- A task with an attribute in its list of tags, and a key below that. -/
def tagsThenWhen : Text :=
  "- name: t\n  tags:\n    - a\n    register: r\n  when: x\n".toList

/-- The task does not set the attribute, neither above nor below. -/
theorem relocated_keys_unique_tagsThenWhen :
    ∃ (pass : Pass) (name tags tag lifted condition : Visit) (item child : Entry) (last : State),
      run (.extended {}) tagsThenWhen = .ok pass ∧
      trailOf (.extended {}) tagsThenWhen = [name, tags, tag] ++ lifted :: [condition] ∧
      lifted.isRelocated (.extended {}) = true ∧
      (lifted.ready (.extended {})).owner? = some item ∧
      item.hasKey "register".toList = false ∧
      Passes (.extended {}) {} [name, tags, tag, lifted, condition] last ∧
      last.childAt? 0 = some child ∧ "register".toList ∉ child.keys := by
  have hok : (run (.extended {}) tagsThenWhen).toOption.isSome = true := by decide +kernel
  have hfacts : ofFive (fun _ _ _ lifted condition =>
      lifted.isRelocated (.extended {}) && lifted.input.line.key == some "register".toList &&
      (lifted.ready (.extended {})).owner?.isSome &&
      (lifted.ready (.extended {})).ownerDepth? == some 0 &&
      !condition.endsEntry (.extended {}) 0 &&
      condition.input.line.key == some "when".toList)
      (trailOf (.extended {}) tagsThenWhen) = true := by
    decide +kernel
  obtain ⟨name, tags, tag, lifted, condition, htrail, hfacts⟩ := exists_of_ofFive hfacts
  simp only [Bool.and_eq_true, Bool.not_eq_true', beq_iff_eq] at hfacts
  obtain ⟨⟨⟨⟨⟨hlifted, hregister⟩, howner⟩, hdepth⟩, hopen⟩, hwhen⟩ := hfacts
  cases hrun : run (.extended {}) tagsThenWhen with
  | error failure =>
    rw [hrun] at hok
    cases hok
  | ok pass =>
    obtain ⟨key, hkey, _, hunique⟩ := @relocated_keys_unique {} tagsThenWhen pass
      [name, tags, tag] [condition] lifted hrun htrail hlifted
    obtain rfl : key = "register".toList := Option.some.inj (hkey.symm.trans hregister)
    obtain ⟨item, hitem⟩ := Option.isSome_iff_exists.1 howner
    obtain ⟨hunset, depth, above, first, between, hbefore, howned, _, _, hend⟩ := hunique item hitem
    obtain rfl : depth = 0 := Option.some.inj (howned.owner.symm.trans hdepth)
    obtain ⟨last, child, hlast, hchild, _, hkeys⟩ := hend [condition] [] rfl fun visit hvisit => by
      rw [List.mem_singleton.1 hvisit]
      exact hopen
    rw [← List.cons_append, ← List.append_assoc, ← hbefore] at hlast
    refine ⟨pass, name, tags, tag, lifted, condition, item, child, last, rfl, htrail, hlifted,
      hitem, hunset, hlast, hchild, fun hmem => ?_⟩
    obtain ⟨visit, hvisit, _, hsets⟩ := hkeys.1 hmem
    rw [List.mem_singleton.1 hvisit, hwhen, Option.some.injEq] at hsets
    exact absurd hsets (by decide)

/-- A task with an attribute in its list of tags that it also sets itself, below. -/
def tagsThenSet : Text :=
  "- name: t\n  tags:\n    - a\n    register: r\n  register: s\n".toList

/-- Only the keys above are looked at: a task can set the key of a line that was lifted out. -/
theorem not_relocated_keys_unique :
    ¬ ∀ (registry : Registry) (text : Text) (final : State) (before after : List Visit)
        (lifted : Visit) (key : Text) (depth : Nat) (child : Entry),
        steps registry {} (InputLine.ofLines 1 text.splitLines) = .ok final →
        trailOf registry text = before ++ lifted :: after → lifted.isRelocated registry = true →
        lifted.input.line.key = some key →
        (lifted.ready registry).ownerDepth? = some depth →
        (∀ visit ∈ after, visit.endsEntry registry depth = false) →
        final.childAt? depth = some child → key ∉ child.keys := by
  intro hunique
  have hfinal : (steps .standard {} (InputLine.ofLines 1 tagsThenSet.splitLines)).toOption.any
      (fun final => (final.childAt? 0).any fun child => child.keys.contains "register".toList) =
        true := by decide +kernel
  have hfacts : ofFive (fun _ _ _ lifted register =>
      lifted.isRelocated .standard && lifted.input.line.key == some "register".toList &&
      (lifted.ready .standard).ownerDepth? == some 0 && !register.endsEntry .standard 0)
      (trailOf .standard tagsThenSet) = true := by decide +kernel
  obtain ⟨name, tags, tag, lifted, register, htrail, hfacts⟩ := exists_of_ofFive hfacts
  simp only [Bool.and_eq_true, Bool.not_eq_true', beq_iff_eq] at hfacts
  obtain ⟨⟨⟨hlifted, hkey⟩, hdepth⟩, hopen⟩ := hfacts
  cases hsteps : steps .standard {} (InputLine.ofLines 1 tagsThenSet.splitLines) with
  | error failure =>
    rw [hsteps] at hfinal
    cases hfinal
  | ok final =>
    rw [hsteps] at hfinal
    have hends :
        (final.childAt? 0).any (fun child => child.keys.contains "register".toList) = true := hfinal
    obtain ⟨child, hchild, hset⟩ := Option.any_eq_true _ _ |>.1 hends
    refine hunique .standard tagsThenSet final [name, tags, tag] [register] lifted _ 0 child hsteps
      htrail hlifted hkey hdepth (fun visit hvisit => ?_) hchild (by simpa using hset)
    rw [List.mem_singleton.1 hvisit]
    exact hopen

end Pass
end Reindent
