import Reindent.Proofs.Pass.Receipt
import Reindent.Proofs.Pass.Siblings

/-!
# Reindent.Proofs.Pass.Routing

Where the lines go that are lifted out of a frame.

* `WrittenOnce`    — such a line is written once, at the column of the key of its frame.
* `OwnedBy`        — the item that it belongs to, and the lines of that item.
* `ReceivedBy`     — that item receives it when the frame ends.
* `WrittenAtEndOf` — it is written below the lines of the item and above the line that ends it.
* `relocations_routed` — all of this holds in every pass, and without an item the line is written
  below all lines that stay.
-/

namespace Reindent
namespace Pass

variable {registry : Registry}

/-! ### What becomes of a line that is lifted out -/

/-- The line is written once: its content, at the column of the key of `frame`. -/
def WrittenOnce (pass : Pass) (frame : Frame) (input : InputLine) : Prop :=
  pass.lines.filter (fun line => line.number == input.number) =
    [{ body := Text.spaces frame.baseIndent ++ input.line.content, ending := input.ending,
       number := input.number, moved := true, trivia := false }]

/-- The line `lifted` belongs to the item `item` with `depth` frames around it. The line `first`
started the item, and none of the lines `between` has ended it. -/
structure OwnedBy (registry : Registry) (item : Entry) (depth : Nat) (first : Visit)
    (between : List Visit) (lifted : Visit) : Prop where
  owner : (lifted.ready registry).ownerDepth? = some depth
  isItem : item.item = true
  starts : first.startsEntry registry depth = true
  child : item.child = first.child registry
  goesOn : ∀ visit ∈ between, visit.endsEntry registry depth = false

/-- The item `item` with `depth` frames around it receives the line `lifted` when the frame ends
which the line was lifted out of. If no line ends that frame, the item is still its owner at the end
of the document. -/
structure ReceivedBy (registry : Registry) (text : Text) (item : Entry) (depth : Nat)
    (lifted : Visit) (after : List Visit) : Prop where
  closed : ∀ inside closer below, after = inside ++ closer :: below →
    (∀ visit ∈ inside, visit.isStructural = true →
      lifted.depth registry ≤ visit.depth registry) →
    closer.isStructural = true → closer.depth registry < lifted.depth registry →
    ∃ closed lines,
      State.closeUpTo registry closer.input.line 1 { closer.state with body := none } = closed ∧
      lifted.out registry ∈ lines.map State.moved ∧
      closed.receiver? = some (item.receive lines) ∧ closed.receiverDepth? = some depth
  atEnd : (∀ visit ∈ after, visit.isStructural = true →
      lifted.depth registry ≤ visit.depth registry) →
    ∃ final, steps registry {} (InputLine.ofLines 1 text.splitLines) = .ok final ∧
      final.owner? = some item ∧ final.ownerDepth? = some depth ∧
      ∃ frame, final.stack.head? = some frame ∧
        lifted.out registry ∈ frame.relocations.map State.moved

/-- The line is lifted out and waits for the end of the item with `depth` frames around it. -/
def Visit.WaitsFor (registry : Registry) (depth : Nat) (visit : Visit) : Prop :=
  visit.isRelocated registry = true ∧ (visit.ready registry).ownerDepth? = some depth

theorem Visit.WaitsFor.lt_depth {depth : Nat} {visit : Visit} (h : visit.WaitsFor registry depth) :
    depth < visit.depth registry := by
  obtain ⟨hle, _⟩ := Stack.item_of_itemDepth? h.2
  have houter := Visit.length_outer_of_isRelocated h.1
  omega

/-- The line `lifted` is written where the item ends that `first` has started: below its lines, save
the others that wait for its end, and above the line that ends it. -/
structure WrittenAtEndOf (registry : Registry) (pass : Pass) (depth : Nat) (first : Visit)
    (between : List Visit) (lifted : Visit) (after : List Visit) : Prop where
  below : ∀ within rest, after = within ++ rest →
    (∀ visit ∈ within, visit.endsEntry registry depth = false) →
    ∀ visit ∈ first :: (between ++ within), (visit.out registry).trivia = false →
      ¬ visit.WaitsFor registry depth →
      [visit.out registry, lifted.out registry].Sublist pass.lines
  above : ∀ within ender rest, after = within ++ ender :: rest →
    (∀ visit ∈ within, visit.endsEntry registry depth = false) →
    ender.endsEntry registry depth = true →
    [lifted.out registry, ender.out registry].Sublist pass.lines

/-! ### Proofs for one pass -/

section Lifted

variable {next : State} {before after : List Visit} {lifted : Visit}

theorem writtenOnce {text : Text} {pass : Pass} (hrun : run registry text = .ok pass)
    (hvisit : lifted ∈ trailOf registry text) (hlifted : lifted.isRelocated registry = true)
    {frame : Frame} (hframe : lifted.frame? registry = some frame) :
    WrittenOnce pass frame lifted.input := by
  obtain ⟨rest, hstack⟩ := List.head?_eq_some_iff.1 hframe
  have hmem : lifted.out registry ∈ pass.lines :=
    (perm_trail hrun).mem_iff.2 (List.mem_map_of_mem hvisit)
  have honce := filter_number_of_mem (nodup_number_run hrun) hmem
  rw [Visit.out_of_relocated hlifted hstack] at honce
  exact honce

theorem receivedBy {text : Text} {pass : Pass} {item : Entry} (hconfined : registry.Confined)
    (hrun : run registry text = .ok pass)
    (htrail : trailOf registry text = before ++ lifted :: after)
    (hlifted : lifted.isRelocated registry = true)
    (howner : (lifted.ready registry).owner? = some item) {depth : Nat}
    (hdepth : (lifted.ready registry).ownerDepth? = some depth) :
    ReceivedBy registry text item depth lifted after := by
  obtain ⟨final, hsteps, _, _⟩ := runLines_ok hrun
  have hpasses : Passes registry {} (trailOf registry text) final :=
    passes_trail (fun _ hinput => InputLine.isRead_of_mem_ofLines hinput) hsteps
  rw [htrail] at hpasses
  obtain ⟨middle, _, hrest⟩ := hpasses.append
  obtain ⟨rfl, _, next, hstep, hafter⟩ := hrest.uncons
  have houter := Visit.length_outer_of_isRelocated hlifted
  refine ⟨?_, ?_⟩
  · rintro inside closer below rfl hinside _ hless
    obtain ⟨middle, habove, hbelow⟩ := hafter.append
    obtain ⟨rfl, _⟩ := hbelow.uncons
    have hcloser := Sheltered.of_passes hconfined hlifted hstep habove hinside
    rw [← hdepth]
    exact hcloser.receiver?_closeUpTo howner (by omega)
  · intro hinside
    have hend := Sheltered.of_passes hconfined hlifted hstep hafter hinside
    obtain ⟨frame, hstack, hroot, _, hline⟩ := hend
    refine ⟨final, hsteps, ?_, ?_, frame, by rw [hstack, List.head?_cons], hline⟩
    · rw [State.owner?, Stack.ownerItem?, hstack, hroot, List.tail_cons]
      exact howner
    · rw [State.ownerDepth?, hstack, hroot, List.tail_cons]
      exact hdepth

theorem exists_ownedBy {item : Entry} (hlifted : lifted.isRelocated registry = true)
    (hbefore : Passes registry {} before lifted.state) (horder : lifted.state.InOrder)
    (howner : (lifted.ready registry).owner? = some item) :
    ∃ depth above first between, before = above ++ first :: between ∧
      OwnedBy registry item depth first between lifted ∧ depth < lifted.depth registry ∧
      lifted.state.HasItem depth item.child := by
  obtain ⟨key, frame, hframe, _⟩ := Visit.exists_stranded hlifted
  obtain ⟨rest, hstack⟩ := List.head?_eq_some_iff.1 hframe
  obtain ⟨depth, hdepth⟩ : ∃ depth, (lifted.ready registry).ownerDepth? = some depth := by
    rw [← Option.isSome_iff_exists, State.ownerDepth?, Stack.isSome_itemDepth?]
    rw [State.owner?, Stack.ownerItem?] at howner
    rw [howner]
    rfl
  obtain ⟨hle, found, role?, hfound, hitem, hsketch⟩ := Stack.item_of_itemDepth? hdepth
  obtain rfl : found = item := Option.some.inj (hfound.symm.trans howner)
  have hless : depth < lifted.depth registry := by
    rw [hstack, List.tail_cons] at hle
    rw [Visit.depth, hstack, List.length_cons]
    omega
  have houtline : lifted.state.outline[depth]? = some { role?, child? := some found.child } := by
    rw [hstack, List.tail_cons] at hsketch hle
    rw [← Visit.outline_ready (Nat.le_of_lt hless), State.outline, hstack, Stack.sketches_cons,
      List.getElem?_append_left (by rw [Stack.length_sketches]; omega), hsketch]
  have hinside : depth < lifted.state.stack.length :=
    Nat.lt_of_lt_of_le hless
      (State.closeUpTo_stack_length_le _ _ _ { lifted.state with body := none })
  rcases hbefore.exists_startsEntry houtline rfl with ⟨hinitial, _⟩ | hstarted
  · have hempty : ({} : State).outline = [{ role? := none, child? := none }] := rfl
    rw [hempty] at hinitial
    have hchild := List.mem_singleton.1 (List.mem_of_getElem? hinitial)
    cases hchild
  · obtain ⟨above, first, between, rfl, hstarts, hchild, hopen⟩ := hstarted
    exact ⟨depth, above, first, between, rfl, ⟨hdepth, hitem, hstarts, hchild, hopen⟩, hless, hitem,
      role?, houtline, fun role hrole => horder.not_isLeaf hinside houtline hrole⟩

theorem mem_agenda_of_isRelocated (hlifted : lifted.isRelocated registry = true)
    (hstep : lifted.state.step registry lifted.input lifted.rest = .ok next) :
    ((lifted.ready registry).ownerLevel, lifted.out registry) ∈ next.agenda := by
  have hagenda := Visit.agenda_step hstep
  rw [if_pos hlifted] at hagenda
  exact hagenda.mem_iff.2 List.mem_cons_self

end Lifted

theorem State.ownerLevel_eq {state : State} {depth : Nat} (h : state.ownerDepth? = some depth) :
    state.ownerLevel = depth + 1 := by
  rw [ownerDepth?] at h
  rw [ownerLevel, Stack.itemLevel, h, Option.elim_some]

/-! ### Lines of an item -/

section Item

variable {pass : Pass} {state : State} {within below : List Visit} {visit ender : Visit}
  {depth : Nat} {child : Child} {line : OutLine}

/-- While an item goes on, what is lifted out waits for this item or for one inside it. -/
theorem Passes.lt_ownerLevel (hconfined : registry.Confined) {last : State}
    (h : Passes registry state within last) (hitem : state.HasItem depth child)
    (hopen : ∀ visit ∈ within, visit.endsEntry registry depth = false) (hvisit : visit ∈ within)
    (hwaits : ¬ visit.WaitsFor registry depth) (hrelocated : visit.isRelocated registry = true) :
    depth + 1 < (visit.ready registry).ownerLevel := by
  obtain ⟨inside, below, next, rfl, hinside, _, _, _⟩ := h.exists_of_mem hvisit
  have hstate := hinside.hasItem (fun v hv => hopen v (List.mem_append_left _ hv)) hitem
  obtain ⟨inner, hinner, hle⟩ := Visit.exists_ownerDepth? hconfined hrelocated
    (hopen visit hvisit) hstate
  have hne : inner ≠ depth := by
    rintro rfl
    exact hwaits ⟨hrelocated, hinner⟩
  rw [State.ownerLevel_eq hinner]
  omega

theorem not_endsEntry_of_level (hopen : ∀ visit ∈ within, visit.endsEntry registry depth = false) :
    ∀ visit ∈ within, ∀ d, depth + 1 = d + 1 → visit.endsEntry registry d = false := by
  rintro visit hvisit d hd
  obtain rfl := Nat.succ.inj hd
  exact hopen visit hvisit

theorem Completes.sublist_of_endsEntry (hconfined : registry.Confined)
    (h : Completes registry pass ender.state (ender :: below)) (horder : ender.state.InOrder)
    (hitem : ender.state.HasItem depth child) (hwaiting : (depth + 1, line) ∈ ender.state.agenda)
    (hends : ender.endsEntry registry depth = true) :
    [line, ender.out registry].Sublist pass.lines := by
  obtain ⟨_, hread, next, hstep, hbelow⟩ := h.uncons
  have hstructural := (Visit.endsEntry_iff.1 hends).1
  have hstays : ender.isRelocated registry = false := by
    by_contra hrelocated
    rw [Bool.not_eq_false] at hrelocated
    obtain ⟨_, _, hchild, _⟩ := hitem
    have hinside := (List.getElem?_eq_some_iff.1 hchild).1
    have hdepth := Visit.depth_of_isRelocated hconfined horder hrelocated
    rw [State.length_outline] at hinside
    rw [Visit.not_endsEntry_of_isRelocated hrelocated (by omega)] at hends
    cases hends
  have hwritten : line ∈ (ender.made registry).solid := by
    refine ((State.carried_holds _ _).made (.inr hwaiting)).resolve_right fun hstill => ?_
    have hlevel : depth + 1 ≤ depth := Visit.level_le_of_mem_made hends hstill
    omega
  refine hbelow.sublist_lines (.written ?_)
  rw [Visit.solid_step hread hstep, hstays, Visit.trivia_of_isStructural hstructural]
  simp only [Bool.false_eq_true, or_self, if_false, List.reverse_cons]
  exact State.pair_sublist_append (List.mem_reverse.2 hwritten) List.mem_cons_self

end Item

theorem writtenAtEndOf (hconfined : registry.Confined) {pass : Pass} {item : Entry} {depth : Nat}
    {first lifted : Visit} {between after : List Visit} {next : State}
    (howned : OwnedBy registry item depth first between lifted)
    (hlifted : lifted.isRelocated registry = true) (hless : depth < lifted.depth registry)
    (hitem : lifted.state.HasItem depth item.child) (horder : lifted.state.InOrder)
    (hfirst : Passes registry first.state (first :: between) lifted.state)
    (hread : lifted.input.line.IsRead)
    (hstep : lifted.state.step registry lifted.input lifted.rest = .ok next)
    (hafter : Completes registry pass next after) :
    WrittenAtEndOf registry pass depth first between lifted after := by
  have hwaiting := mem_agenda_of_isRelocated hlifted hstep
  rw [State.ownerLevel_eq howned.owner] at hwaiting
  have hnext : next.HasItem depth item.child := by
    refine (Passes.cons hread hstep .nil).hasItem (fun visit hvisit => ?_) hitem
    rw [List.mem_singleton.1 hvisit]
    exact Visit.not_endsEntry_of_isRelocated hlifted (Nat.le_of_lt hless)
  refine ⟨?_, ?_⟩
  · rintro within rest rfl hopen visit hvisit htrivia hwaits
    rw [← List.cons_append] at hvisit
    rcases List.mem_append.1 hvisit with hvisit | hvisit
    · refine hafter.sublist_lines ((hfirst.concat hread hstep).precedes_of_mem_above hwaiting
        (List.mem_append_left _ hvisit) htrivia fun hrelocated => ?_)
      obtain ⟨_, _, started, hstarted, hbetween⟩ := hfirst.uncons
      rcases List.mem_cons.1 hvisit with rfl | hvisit
      · have hplaced := (Visit.startsEntry_iff.1 howned.starts).1
        rw [Visit.not_isPlaced_of_isRelocated hrelocated] at hplaced
        cases hplaced
      · exact hbetween.lt_ownerLevel hconfined
          (hbetween.hasItem_of_startsEntry howned.starts hstarted howned.goesOn hitem)
          howned.goesOn hvisit hwaits hrelocated
    · obtain ⟨middle, hwithin, hrest⟩ := hafter.append
      exact hrest.sublist_lines (hwithin.precedes_of_mem hwaiting (not_endsEntry_of_level hopen)
        hvisit htrivia (hwithin.lt_ownerLevel hconfined hnext hopen hvisit hwaits))
  · rintro within ender rest rfl hopen hends
    obtain ⟨middle, hwithin, hrest⟩ := hafter.append
    obtain ⟨rfl, _⟩ := hrest.uncons
    exact hrest.sublist_of_endsEntry hconfined
      (hwithin.inOrder hconfined (Visit.inOrder_step hconfined hread horder hstep))
      (hwithin.hasItem hopen hnext)
      (hwithin.mem_agenda hwaiting (not_endsEntry_of_level hopen)) hends

theorem sublist_of_owner?_eq_none {pass : Pass} {state next : State} {before after : List Visit}
    {lifted visit : Visit} (hlifted : lifted.isRelocated registry = true)
    (howner : (lifted.ready registry).owner? = none)
    (hbefore : Passes registry state before lifted.state) (hread : lifted.input.line.IsRead)
    (hstep : lifted.state.step registry lifted.input lifted.rest = .ok next)
    (hafter : Completes registry pass next after) (hvisit : visit ∈ before ++ after)
    (hstays : visit.isRelocated registry = false) (htrivia : (visit.out registry).trivia = false) :
    [visit.out registry, lifted.out registry].Sublist pass.lines := by
  have hlevel : (lifted.ready registry).ownerLevel = 0 := by
    have hnone := Stack.isSome_itemDepth? (lifted.ready registry).root
      (lifted.ready registry).stack.tail
    rw [State.owner?, Stack.ownerItem?] at howner
    rw [howner, Option.isSome_none, Option.isSome_eq_false_iff, Option.isNone_iff_eq_none] at hnone
    rw [State.ownerLevel, Stack.itemLevel, hnone, Option.elim_none]
  have hwaiting := mem_agenda_of_isRelocated hlifted hstep
  rw [hlevel] at hwaiting
  have hvacuous : visit.isRelocated registry = true → 0 < (visit.ready registry).ownerLevel := by
    intro hrelocated
    rw [hstays] at hrelocated
    cases hrelocated
  rcases List.mem_append.1 hvisit with hvisit | hvisit
  · exact hafter.sublist_lines ((hbefore.concat hread hstep).precedes_of_mem_above hwaiting
      (List.mem_append_left _ hvisit) htrivia hvacuous)
  · rw [← List.append_nil after] at hafter
    obtain ⟨middle, hlines, hend⟩ := hafter.append
    -- No line ends the document.
    exact hend.sublist_lines (hlines.precedes_of_mem hwaiting
      (fun _ _ depth hzero => absurd hzero (Nat.succ_ne_zero depth).symm) hvisit htrivia hvacuous)

/-! ### The routing of a pass -/

/-- A line that is lifted out of a frame is written once, at the column of the key of the frame. If
it has an owner then, that item receives it when the frame ends, and it is written where the item
ends. If it has none, it is written below all lines that stay. -/
theorem relocations_routed (extra : RegistryExtension) {text : Text} {pass : Pass}
    {before after : List Visit} {lifted : Visit} (hrun : run (.extended extra) text = .ok pass)
    (htrail : trailOf (.extended extra) text = before ++ lifted :: after)
    (hlifted : lifted.isRelocated (.extended extra) = true) :
    ∃ frame, lifted.frame? (.extended extra) = some frame ∧ WrittenOnce pass frame lifted.input ∧
      (∀ item, (lifted.ready (.extended extra)).owner? = some item →
        ∃ depth above first between, before = above ++ first :: between ∧
          OwnedBy (.extended extra) item depth first between lifted ∧
          ReceivedBy (.extended extra) text item depth lifted after ∧
          WrittenAtEndOf (.extended extra) pass depth first between lifted after) ∧
      ((lifted.ready (.extended extra)).owner? = none →
        ∀ visit ∈ before ++ after, visit.isRelocated (.extended extra) = false →
          (visit.out (.extended extra)).trivia = false →
          [visit.out (.extended extra), lifted.out (.extended extra)].Sublist pass.lines) := by
  have hconfined := Registry.confined_extended extra
  have hcompletes := completes_run hconfined hrun
  rw [htrail] at hcompletes
  obtain ⟨middle, hbefore, hrest⟩ := hcompletes.append
  obtain ⟨rfl, hread, next, hstep, hafter⟩ := hrest.uncons
  have horder := hbefore.inOrder hconfined .initial
  obtain ⟨key, frame, hframe, _⟩ := Visit.exists_stranded hlifted
  have hmem : lifted ∈ trailOf (.extended extra) text := by
    rw [htrail]
    simp
  refine ⟨frame, hframe, writtenOnce hrun hmem hlifted hframe, ?_, ?_⟩
  · intro item howner
    obtain ⟨depth, above, first, between, rfl, howned, hless, hitem⟩ :=
      exists_ownedBy hlifted hbefore horder howner
    obtain ⟨start, _, hfirst⟩ := hbefore.append
    obtain ⟨rfl, _⟩ := hfirst.uncons
    exact ⟨depth, above, first, between, rfl, howned,
      receivedBy hconfined hrun htrail hlifted howner howned.owner,
      writtenAtEndOf hconfined howned hlifted hless hitem horder hfirst hread hstep hafter⟩
  · intro howner visit hvisit hstays htrivia
    exact sublist_of_owner?_eq_none hlifted howner hbefore hread hstep hafter hvisit hstays htrivia

/-- A task with an attribute in its list of tags, and a task after it. -/
def tagsThenRegister : Text :=
  "tasks:\n- tags:\n    - x\n    register: r\n- name: b\n".toList

/-- The attribute moves out of the list, below the tags and above the second task. -/
theorem relocations_routed_tagsThenRegister :
    ∃ (pass : Pass) (tasks task tag lifted ender : Visit),
      run (.extended {}) tagsThenRegister = .ok pass ∧
      trailOf (.extended {}) tagsThenRegister = [tasks, task, tag, lifted, ender] ∧
      lifted.isRelocated (.extended {}) = true ∧
      (∃ frame, frame.key = "tags".toList ∧ WrittenOnce pass frame lifted.input) ∧
      (∃ item closed lines, (lifted.ready (.extended {})).owner? = some item ∧
        State.closeUpTo (.extended {}) ender.input.line 1 { ender.state with body := none } =
          closed ∧
        lifted.out (.extended {}) ∈ lines.map State.moved ∧
        closed.receiver? = some (item.receive lines)) ∧
      [tag.out (.extended {}), lifted.out (.extended {})].Sublist pass.lines ∧
      [lifted.out (.extended {}), ender.out (.extended {})].Sublist pass.lines := by
  have hok : (run (.extended {}) tagsThenRegister).toOption.isSome = true := by decide +kernel
  have hfacts : ofFive (fun _ _ tag lifted ender =>
      lifted.isRelocated (.extended {}) &&
      (lifted.frame? (.extended {})).any (fun frame => frame.key == "tags".toList) &&
      (lifted.ready (.extended {})).owner?.isSome &&
      (lifted.ready (.extended {})).ownerDepth? == some 1 &&
      !(tag.out (.extended {})).trivia && !tag.isRelocated (.extended {}) &&
      decide (ender.depth (.extended {}) < lifted.depth (.extended {})) &&
      ender.endsEntry (.extended {}) 1) (trailOf (.extended {}) tagsThenRegister) = true := by
    decide +kernel
  obtain ⟨tasks, task, tag, lifted, ender, htrail, hfacts⟩ := exists_of_ofFive hfacts
  simp only [Bool.and_eq_true, Bool.not_eq_true', decide_eq_true_eq, beq_iff_eq] at hfacts
  obtain ⟨⟨⟨⟨⟨⟨⟨hlifted, hkey⟩, howner⟩, hdepth⟩, htrivia⟩, hstays⟩, hless⟩, hends⟩ := hfacts
  cases hrun : run (.extended {}) tagsThenRegister with
  | error failure =>
    rw [hrun] at hok
    cases hok
  | ok pass =>
    obtain ⟨frame, hframe, honce, hrouted, _⟩ := @relocations_routed {} tagsThenRegister pass
      [tasks, task, tag] [ender] lifted hrun htrail hlifted
    obtain ⟨item, hitem⟩ := Option.isSome_iff_exists.1 howner
    obtain ⟨depth, above, first, between, hbefore, howned, hreceived, hwritten⟩ :=
      hrouted item hitem
    obtain rfl : depth = 1 := Option.some.inj (howned.owner.symm.trans hdepth)
    rw [hframe, Option.any_some, beq_iff_eq] at hkey
    have htag : tag ∈ first :: (between ++ []) := by
      have hlast := congrArg List.getLast? hbefore
      rw [List.getLast?_append_cons] at hlast
      rw [List.append_nil]
      exact List.mem_of_getLast? hlast.symm
    obtain ⟨closed, lines, hclosed, hline, hreceiver, _⟩ := hreceived.closed [] ender [] rfl
      (fun _ hvisit => absurd hvisit List.not_mem_nil) (Visit.endsEntry_iff.1 hends).1 hless
    refine ⟨pass, tasks, task, tag, lifted, ender, rfl, htrail, hlifted, ⟨frame, hkey, honce⟩,
      ⟨item, closed, lines, hitem, hclosed, hline, hreceiver⟩, ?_, ?_⟩
    · refine hwritten.below [] [ender] rfl (fun _ hvisit => absurd hvisit List.not_mem_nil) tag
        htag htrivia fun hwaits => ?_
      rw [hwaits.1] at hstays
      cases hstays
    · exact hwritten.above [] ender [] rfl (fun _ hvisit => absurd hvisit List.not_mem_nil) hends

end Pass
end Reindent
