import Reindent.Proofs.Pass.Boundary

/-!
# Reindent.Proofs.Pass.Agenda

The lines that wait, in the order in which they will be written.

* `Stack.itemDepth?`  — how many frames are around the innermost item.
* `State.agenda`      — each waiting line, with the level of the item that it waits for.
* `State.solid`       — the lines that are written, without blank lines and comments.
* `agenda_handed`     — where the lines wait that a frame hands over when it ends.
* `State.Releases`    — the first lines of the agenda are written, in its order.
* `State.Drains`      — they are, up to the order of those that wait for the same item.
* `releases_closeFor`, `releases_record` — frames and items that end release the agenda down to their
  level.
* `drains_unwind`     — the end of the document drains it.
* `agenda_liftOut`    — a line that is lifted out waits at the level of its owner.

A line waits at the level `depth + 1` for an item with `depth` frames around it, and at the level 0
for the end of the document.
-/

namespace Reindent
namespace Stack

/-- How many frames are around the innermost item, be it a child of a frame or of the document
itself. -/
def itemDepth? (root : Scope) : Stack → Option Nat
  | [] => if root.item?.isSome then some 0 else none
  | frame :: rest =>
    if frame.scope.item?.isSome then some (rest.length + 1) else itemDepth? root rest

/-- The level that lines wait at for the end of the innermost item. -/
def itemLevel (root : Scope) (stack : Stack) : Nat :=
  (stack.itemDepth? root).elim 0 (· + 1)

end Stack

namespace Pass

/-- The relocations `lines`, which wait at the given level. -/
def waitAt (level : Nat) (lines : List Relocation) : List (Nat × OutLine) :=
  lines.map fun r => (level, State.moved r)

@[simp] theorem waitAt_nil (level : Nat) : waitAt level [] = [] := rfl

@[simp] theorem waitAt_append (level : Nat) (lines lines' : List Relocation) :
    waitAt level (lines ++ lines') = waitAt level lines ++ waitAt level lines' :=
  List.map_append

@[simp] theorem map_snd_waitAt (level : Nat) (lines : List Relocation) :
    (waitAt level lines).map Prod.snd = lines.map State.moved := by
  rw [waitAt, List.map_map]
  rfl

theorem fst_of_mem_waitAt {level : Nat} {lines : List Relocation} {waiting : Nat × OutLine}
    (h : waiting ∈ waitAt level lines) : waiting.1 = level := by
  obtain ⟨_, _, rfl⟩ := List.mem_map.1 h
  rfl

/-- The level of the first line is not below that of the second. -/
def NotBelow (first second : Nat × OutLine) : Prop :=
  second.1 ≤ first.1

theorem pairwise_waitAt (level : Nat) (lines : List Relocation) :
    (waitAt level lines).Pairwise NotBelow := by
  rw [waitAt, List.pairwise_map]
  exact List.pairwise_of_forall fun _ _ => Nat.le_refl level

end Pass

namespace Stack

open Pass (waitAt NotBelow)

variable {root : Scope} {orphans : List Relocation}

/-- The lines that wait in the frames, in the document's own scope and for the end of the document,
if the lines `carry` come from a frame that has ended inside the given ones. -/
def agenda (root : Scope) (orphans : List Relocation) :
    List Relocation → Stack → List (Nat × OutLine)
  | carry, [] =>
    if root.item?.isSome then waitAt 1 (root.waiting ++ carry) ++ waitAt 0 orphans
    else waitAt 1 root.waiting ++ waitAt 0 (orphans ++ carry)
  | carry, frame :: rest =>
    if frame.scope.item?.isSome then
      waitAt (rest.length + 2) (frame.scope.waiting ++ carry) ++
        agenda root orphans frame.relocations rest
    else
      waitAt (rest.length + 2) frame.scope.waiting ++
        agenda root orphans (carry ++ frame.relocations) rest

@[simp] theorem agenda_nil_nil :
    agenda root orphans [] [] = waitAt 1 root.waiting ++ waitAt 0 orphans := by
  simp [agenda]

@[simp] theorem agenda_nil_cons (frame : Frame) (rest : Stack) :
    agenda root orphans [] (frame :: rest) =
      waitAt (rest.length + 2) frame.scope.waiting ++
        agenda root orphans frame.relocations rest := by
  simp [agenda]

/-! ### Levels -/

theorem itemLevel_le (root : Scope) (stack : Stack) : itemLevel root stack ≤ stack.length + 1 := by
  induction stack with
  | nil =>
    simp only [itemLevel, itemDepth?]
    split <;> simp
  | cons frame rest ih =>
    simp only [itemLevel, itemDepth?] at ih ⊢
    split
    · simp
    · rw [List.length_cons]
      omega

theorem level_le_of_mem_agenda {carry : List Relocation} {stack : Stack}
    {waiting : Nat × OutLine} (h : waiting ∈ agenda root orphans carry stack) :
    waiting.1 ≤ stack.length + 1 := by
  induction stack generalizing carry with
  | nil =>
    simp only [agenda] at h
    split at h
    all_goals
      rcases List.mem_append.1 h with h | h
      all_goals
        have hlevel := Pass.fst_of_mem_waitAt h
        simp [hlevel]
  | cons frame rest ih =>
    rw [List.length_cons]
    simp only [agenda] at h
    split at h
    all_goals
      rcases List.mem_append.1 h with h | h
      · have hlevel := Pass.fst_of_mem_waitAt h
        omega
      · have hlevel := ih h
        omega

theorem pairwise_append_of_level {level : Nat} {lines : List Relocation}
    {others : List (Nat × OutLine)} (hothers : others.Pairwise NotBelow)
    (hlevel : ∀ waiting ∈ others, waiting.1 ≤ level) :
    (waitAt level lines ++ others).Pairwise NotBelow := by
  refine List.pairwise_append.2 ⟨Pass.pairwise_waitAt level lines, hothers, ?_⟩
  intro first hfirst second hsecond
  rw [NotBelow, Pass.fst_of_mem_waitAt hfirst]
  exact hlevel second hsecond

theorem pairwise_agenda (carry : List Relocation) (stack : Stack) :
    (agenda root orphans carry stack).Pairwise NotBelow := by
  induction stack generalizing carry with
  | nil =>
    simp only [agenda]
    split
    all_goals
      refine pairwise_append_of_level (Pass.pairwise_waitAt 0 _) fun waiting hwaiting => ?_
      rw [Pass.fst_of_mem_waitAt hwaiting]
      exact Nat.zero_le 1
  | cons frame rest ih =>
    simp only [agenda]
    split
    all_goals
      refine pairwise_append_of_level (ih _) fun waiting hwaiting => ?_
      exact Nat.le_succ_of_le (level_le_of_mem_agenda hwaiting)

theorem perm_agenda (carry : List Relocation) (stack : Stack) :
    (agenda root orphans carry stack).Perm
      (waitAt (itemLevel root stack) carry ++ agenda root orphans [] stack) := by
  rw [← Multiset.coe_eq_coe, ← Multiset.coe_add]
  induction stack generalizing carry with
  | nil =>
    by_cases hitem : root.item?.isSome
    · simp only [agenda, itemLevel, itemDepth?, if_pos hitem, Option.elim_some,
        Pass.waitAt_append, ← Multiset.coe_add]
      abel
    · simp only [agenda, itemLevel, itemDepth?, if_neg hitem, Option.elim_none,
        Pass.waitAt_append, ← Multiset.coe_add]
      abel
  | cons frame rest ih =>
    by_cases hitem : frame.scope.item?.isSome
    · simp only [agenda, itemLevel, itemDepth?, if_pos hitem, Option.elim_some,
        Pass.waitAt_append, ← Multiset.coe_add]
      abel
    · have hlevel : itemLevel root (frame :: rest) = itemLevel root rest := by
        simp only [itemLevel, itemDepth?, if_neg hitem]
      have hcarry := ih (carry ++ frame.relocations)
      have hrelocations := ih frame.relocations
      simp only [agenda, hlevel, if_neg hitem, List.nil_append, Pass.waitAt_append,
        ← Multiset.coe_add] at hcarry hrelocations ⊢
      rw [hcarry, hrelocations]
      abel

/-- What waits for the end of the innermost item, or for that of the document if there is none. -/
def kept (root : Scope) (orphans : List Relocation) (stack : Stack) : List Relocation :=
  ((innermostItem? stack).or root.item?).elim orphans Entry.pending

/-- Lines from a leaf that has ended wait behind what is kept for the innermost item, and before
what waits further out. No other frame holds lines that were lifted out. -/
theorem agenda_handed {stack : Stack} (htidy : ∀ frame ∈ stack, frame.Tidy) (hroot : root.Tidy)
    (hleaf : ∀ frame ∈ stack, frame.role.isLeaf = false) :
    ∃ below, (∀ waiting ∈ below, waiting.1 < itemLevel root stack) ∧
      (∀ lines, agenda root orphans lines stack =
        waitAt (itemLevel root stack) (kept root orphans stack ++ lines) ++ below) ∧
      (stack.waiting ++ (root.waiting ++ orphans)).map Pass.State.moved =
        (kept root orphans stack).map Pass.State.moved ++ below.map Prod.snd := by
  induction stack with
  | nil =>
    cases hitem : root.item? with
    | some item =>
      have hwaiting := Scope.waiting_of_item? hitem
      refine ⟨waitAt 0 orphans, ?_, ?_, ?_⟩
      · intro waiting hwaiting
        simp [Pass.fst_of_mem_waitAt hwaiting, itemLevel, itemDepth?, hitem]
      · intro lines
        simp [agenda, itemLevel, itemDepth?, kept, innermostItem?, hitem, hwaiting]
      · simp [kept, innermostItem?, hitem, hwaiting]
    | none =>
      have hwaiting := hroot.waiting_eq_nil (by simp [hitem])
      refine ⟨[], fun _ hmem => absurd hmem List.not_mem_nil, ?_, ?_⟩
      · intro lines
        simp [agenda, itemLevel, itemDepth?, kept, innermostItem?, hitem, hwaiting]
      · simp [kept, innermostItem?, hitem, hwaiting]
  | cons frame rest ih =>
    obtain ⟨htop, hrest⟩ := List.forall_mem_cons.1 htidy
    obtain ⟨hinner, houter⟩ := List.forall_mem_cons.1 hleaf
    obtain ⟨below, hlevel, hagenda, hall⟩ := ih hrest houter
    have hempty := htop.relocations hinner
    cases hitem : frame.scope.item? with
    | some item =>
      have hwaiting := Scope.waiting_of_item? hitem
      refine ⟨agenda root orphans [] rest, ?_, ?_, ?_⟩
      · intro waiting hwaiting
        have hle := level_le_of_mem_agenda hwaiting
        simp only [itemLevel, itemDepth?, hitem, Option.isSome_some, if_true, Option.elim_some]
        omega
      · intro lines
        simp [agenda, itemLevel, itemDepth?, kept, innermostItem?, hitem, hwaiting, hempty]
      · rw [hagenda, waiting_cons, Frame.waiting, hempty, hwaiting, List.append_nil,
          List.append_assoc, List.map_append, hall]
        simp [kept, innermostItem?, hitem]
    | none =>
      have hwaiting := htop.scope.waiting_eq_nil (by simp [hitem])
      have hkept : kept root orphans (frame :: rest) = kept root orphans rest := by
        simp [kept, innermostItem?, hitem]
      have houtside : itemLevel root (frame :: rest) = itemLevel root rest := by
        simp [itemLevel, itemDepth?, hitem]
      refine ⟨below, ?_, ?_, ?_⟩
      · rw [houtside]
        exact hlevel
      · intro lines
        rw [hkept, houtside, ← hagenda]
        simp [agenda, hitem, hwaiting, hempty]
      · rw [hkept, ← hall, waiting_cons, Frame.waiting, hempty, hwaiting]
        rfl

theorem level_le_itemLevel {stack : Stack} (htidy : ∀ frame ∈ stack, frame.Tidy)
    (hroot : root.Tidy) (hleaf : ∀ frame ∈ stack, frame.role.isLeaf = false)
    {waiting : Nat × OutLine} (h : waiting ∈ agenda root orphans [] stack) :
    waiting.1 ≤ itemLevel root stack := by
  obtain ⟨below, hlevel, hagenda, _⟩ := @agenda_handed root orphans _ htidy hroot hleaf
  rw [hagenda] at h
  rcases List.mem_append.1 h with h | h
  · exact Nat.le_of_eq (Pass.fst_of_mem_waitAt h)
  · exact Nat.le_of_lt (hlevel waiting h)

/-! ### Lines that are handed over -/

theorem agenda_handInnermost? {lines : List Relocation} {stack stack' : Stack}
    (h : handInnermost? lines stack = some stack') (carry : List Relocation) :
    agenda root orphans carry stack' = agenda root orphans (lines ++ carry) stack := by
  induction stack generalizing stack' carry with
  | nil => cases h
  | cons frame rest ih =>
    by_cases hitem : frame.scope.item?.isSome
    · simp only [handInnermost?, if_pos hitem, Option.some.injEq] at h
      subst h
      have hitem' : (frame.scope.append lines).item?.isSome := by
        rw [Frame.item?_append, Option.isSome_map]
        exact hitem
      simp only [agenda, if_pos hitem, if_pos hitem', Scope.waiting_append hitem,
        List.append_assoc]
    · simp only [handInnermost?, if_neg hitem] at h
      obtain ⟨rest', hrest, rfl⟩ := Option.map_eq_some_iff.1 h
      simp only [agenda, if_neg hitem, ih hrest, handInnermost?_length hrest, List.append_assoc]

theorem agenda_of_innermostItem?_eq_none {root' : Scope} {orphans' lines : List Relocation}
    {stack : Stack} (h : stack.innermostItem? = none)
    (houter : ∀ carry, agenda root' orphans' carry [] = agenda root orphans (lines ++ carry) [])
    (carry : List Relocation) :
    agenda root' orphans' carry stack = agenda root orphans (lines ++ carry) stack := by
  induction stack generalizing carry with
  | nil => exact houter carry
  | cons frame rest ih =>
    simp only [innermostItem?, List.findSome?_cons] at h
    split at h
    · cases h
    · rename_i hnone
      simp [agenda, hnone, ih h, List.append_assoc]

end Stack

namespace Pass
namespace State

/-- The lines that wait, innermost first, with the level of the item that they wait for. -/
def agenda (state : State) : List (Nat × OutLine) :=
  state.stack.agenda state.root state.orphans []

/-- The lines that are written, newest first, without blank lines and comments: a line that is
written later stands below each of them. -/
def solid (state : State) : List OutLine :=
  state.written.filter fun line => !line.trivia

/-- How many frames are around the item that lines lifted out of the innermost frame will belong
to. -/
def ownerDepth? (state : State) : Option Nat :=
  Stack.itemDepth? state.root state.stack.tail

/-- The level at which lines lifted out of the innermost frame wait. -/
def ownerLevel (state : State) : Nat :=
  Stack.itemLevel state.root state.stack.tail

/-- The lines that wait for the end of the innermost frame. -/
def lifted (state : State) : List Relocation :=
  (state.stack.head?.map Frame.relocations).getD []

/-- The lines that wait for the end of the item around the innermost frame, or for that of the
document if there is none. -/
def kept (state : State) : List Relocation :=
  Stack.kept state.root state.orphans state.stack.tail

variable {state next last : State} {registry : Registry}

theorem solid_flush (state : State) (lines : List Relocation) :
    (state.flush lines).solid = (lines.map moved).reverse ++ state.solid := by
  have hmoved : ∀ line ∈ (lines.map moved).reverse, (!line.trivia) = true := by
    intro line hline
    obtain ⟨r, _, rfl⟩ := List.mem_map.1 (List.mem_reverse.1 hline)
    rfl
  have htrivia :
      (state.written.takeWhile OutLine.trivia).filter (fun line => !line.trivia) = [] := by
    rw [List.filter_eq_nil_iff]
    intro line hline
    simp [List.mem_takeWhile_imp hline]
  have hsolid : state.solid =
      (state.written.dropWhile OutLine.trivia).filter fun line => !line.trivia := by
    have hsplit := List.takeWhile_append_dropWhile (p := OutLine.trivia) (l := state.written)
    rw [solid, ← hsplit, List.filter_append, htrivia, List.nil_append]
    rw [hsplit]
  rw [solid, flush, hsolid]
  simp only [List.filter_append, htrivia, List.filter_eq_self.2 hmoved, List.nil_append]

theorem agenda_congr (hstack : next.stack = state.stack) (hroot : next.root = state.root)
    (horphans : next.orphans = state.orphans) : next.agenda = state.agenda := by
  rw [agenda, agenda, hstack, hroot, horphans]

theorem level_le_of_mem_agenda {waiting : Nat × OutLine} (h : waiting ∈ state.agenda) :
    waiting.1 ≤ state.stack.length + 1 :=
  Stack.level_le_of_mem_agenda h

theorem lifted_of_head? {frame : Frame} (h : state.stack.head? = some frame) :
    state.lifted = frame.relocations := by
  rw [lifted, h, Option.map_some, Option.getD_some]

theorem kept_of_owner? {item : Entry} (h : state.owner? = some item) :
    state.kept = item.pending := by
  rw [owner?, Stack.ownerItem?] at h
  rw [kept, Stack.kept, h, Option.elim_some]

/-- Where the lines wait that were lifted out of the innermost frame: behind those that are kept for
the same item. At the end of the document they would be written above them. -/
theorem InOrder.exists_agenda (h : state.InOrder) :
    ∃ inner below : List (Nat × OutLine), (∀ waiting ∈ inner, state.ownerLevel < waiting.1) ∧
      (∀ waiting ∈ below, waiting.1 < state.ownerLevel) ∧
      state.agenda =
        inner ++ (waitAt state.ownerLevel (state.kept ++ state.lifted) ++ below) ∧
      state.waiting.map moved =
        inner.map Prod.snd ++ ((state.lifted ++ state.kept).map moved ++ below.map Prod.snd) := by
  have hinside := h.inside
  have htidy := h.tidy
  cases hstack : state.stack with
  | nil =>
    obtain ⟨below, hlevel, hagenda, hwaiting⟩ := @Stack.agenda_handed state.root state.orphans []
      (fun _ hframe => absurd hframe List.not_mem_nil) h.root
      (fun _ hframe => absurd hframe List.not_mem_nil)
    refine ⟨[], below, nofun, ?_, ?_, ?_⟩
    · rw [ownerLevel, hstack]
      exact hlevel
    · rw [agenda, ownerLevel, kept, lifted, hstack]
      exact hagenda []
    · simpa [waiting, kept, lifted, hstack] using hwaiting
  | cons frame rest =>
    rw [hstack, List.pairwise_cons] at hinside
    rw [hstack, List.forall_mem_cons] at htidy
    obtain ⟨below, hlevel, hagenda, hwaiting⟩ := @Stack.agenda_handed state.root state.orphans rest
      htidy.2 h.root fun outer houter => (hinside.1 outer houter).leaf
    have hlifted : state.lifted = frame.relocations :=
      lifted_of_head? (by rw [hstack, List.head?_cons])
    have hkept : state.kept = Stack.kept state.root state.orphans rest := by
      rw [kept, hstack, List.tail_cons]
    have hlevels : state.ownerLevel = Stack.itemLevel state.root rest := by
      rw [ownerLevel, hstack, List.tail_cons]
    rw [hlevels, hkept, hlifted]
    refine ⟨waitAt (rest.length + 2) frame.scope.waiting, below, ?_, hlevel, ?_, ?_⟩
    · intro waiting hwaiting
      have hle := Stack.itemLevel_le state.root rest
      rw [fst_of_mem_waitAt hwaiting]
      omega
    · rw [agenda, hstack, Stack.agenda_nil_cons, hagenda]
    · rw [waiting, hstack, Stack.waiting_cons, List.append_assoc, List.append_assoc,
        List.map_append, hwaiting, Frame.waiting]
      simp

theorem InOrder.mem_agenda_iff (h : state.InOrder) {line : OutLine} :
    (state.ownerLevel, line) ∈ state.agenda ↔
      line ∈ state.kept.map moved ∨ line ∈ state.lifted.map moved := by
  obtain ⟨inner, below, hinner, hbelow, hagenda, _⟩ := h.exists_agenda
  have hnotInner : (state.ownerLevel, line) ∉ inner := fun hmem =>
    absurd (hinner _ hmem) (Nat.lt_irrefl _)
  have hnotBelow : (state.ownerLevel, line) ∉ below := fun hmem =>
    absurd (hbelow _ hmem) (Nat.lt_irrefl _)
  simp [hagenda, hnotInner, hnotBelow, waitAt]

/-! ### Writing what waits -/

/-- The lines `released` come off the agenda and are written, none before another that waits for an
item further inside. -/
structure Drains (state next : State) (released : List (Nat × OutLine)) : Prop where
  agenda : state.agenda.Perm (released ++ next.agenda)
  order : (released ++ next.agenda).Pairwise NotBelow
  solid : next.solid = (released.map Prod.snd).reverse ++ state.solid

namespace Drains

variable {released released' : List (Nat × OutLine)}

theorem of_eq (hagenda : next.agenda = state.agenda) (hsolid : next.solid = state.solid) :
    Drains state next [] := by
  refine ⟨?_, ?_, ?_⟩
  · rw [hagenda, List.nil_append]
  · rw [List.nil_append]
    exact Stack.pairwise_agenda _ _
  · rw [hsolid]
    rfl

theorem trans (h : Drains state next released) (h' : Drains next last released') :
    Drains state last (released ++ released') := by
  refine ⟨?_, ?_, ?_⟩
  · rw [List.append_assoc]
    exact h.agenda.trans (h'.agenda.append_left released)
  · rw [List.append_assoc]
    obtain ⟨hreleased, _, hbelow⟩ := List.pairwise_append.1 h.order
    refine List.pairwise_append.2 ⟨hreleased, h'.order, fun first hfirst second hsecond => ?_⟩
    exact hbelow first hfirst second (h'.agenda.mem_iff.2 hsecond)
  · rw [h'.solid, h.solid, List.map_append, List.reverse_append, List.append_assoc]

end Drains

/-- The lines `released` come off the front of the agenda and are written in its order. -/
structure Releases (state next : State) (released : List (Nat × OutLine)) : Prop where
  agenda : state.agenda = released ++ next.agenda
  solid : next.solid = (released.map Prod.snd).reverse ++ state.solid

namespace Releases

variable {released released' : List (Nat × OutLine)}

theorem of_eq (hagenda : next.agenda = state.agenda) (hsolid : next.solid = state.solid) :
    Releases state next [] :=
  ⟨hagenda.symm, hsolid⟩

theorem trans (h : Releases state next released) (h' : Releases next last released') :
    Releases state last (released ++ released') := by
  refine ⟨?_, ?_⟩
  · rw [h.agenda, h'.agenda, List.append_assoc]
  · rw [h'.solid, h.solid, List.map_append, List.reverse_append, List.append_assoc]

theorem drains (h : Releases state next released) : Drains state next released := by
  refine ⟨.of_eq h.agenda, ?_, h.solid⟩
  rw [← h.agenda]
  exact Stack.pairwise_agenda _ _

end Releases

/-! ### Ends of frames and items -/

theorem agenda_handOver (state : State) (lines : List Relocation) :
    (state.handOver lines).agenda = state.stack.agenda state.root state.orphans lines := by
  simp only [handOver]
  split
  · rename_i stack hstack
    rw [agenda, Stack.agenda_handInnermost? hstack, List.append_nil]
  · rename_i hnone
    have hitems : state.stack.innermostItem? = none := by
      have hsome := @Stack.handInnermost?_isSome lines state.stack
      rw [hnone] at hsome
      exact Option.isSome_eq_false_iff.1 hsome.symm |> Option.isNone_iff_eq_none.1
    split
    · rename_i hroot
      have hroot' : (state.root.append lines).item?.isSome := by
        rw [Frame.item?_append, Option.isSome_map]
        exact hroot
      rw [agenda]
      refine (Stack.agenda_of_innermostItem?_eq_none hitems (fun carry => ?_) []).trans
        (by rw [List.append_nil])
      simp only [Stack.agenda, if_pos hroot, if_pos hroot', Scope.waiting_append hroot,
        List.append_assoc]
    · rename_i hroot
      rw [agenda]
      refine (Stack.agenda_of_innermostItem?_eq_none hitems (fun carry => ?_) []).trans
        (by rw [List.append_nil])
      simp only [Stack.agenda, if_neg hroot, List.append_assoc]

theorem solid_handOver (state : State) (lines : List Relocation) :
    (state.handOver lines).solid = state.solid := by
  simp only [handOver]
  split
  · rfl
  · split <;> rfl

theorem solid_flushEntry (state : State) (entry : Option Entry) :
    (state.flushEntry entry).solid =
      ((entry.elim [] Entry.pending).map moved).reverse ++ state.solid := by
  cases entry with
  | none => rfl
  | some entry => exact solid_flush state entry.pending

theorem agenda_flushEntry (state : State) (entry : Option Entry) :
    (state.flushEntry entry).agenda = state.agenda := by
  cases entry <;> rfl

theorem agenda_closeTop {frame : Frame} {rest : Stack} (hstack : state.stack = frame :: rest) :
    state.agenda =
      waitAt (rest.length + 2) frame.scope.waiting ++ (state.closeTop false).agenda := by
  have hclosed : (state.closeTop false).agenda =
      rest.agenda state.root state.orphans frame.relocations := by
    have houter : ({ state with stack := rest }.flushEntry frame.scope.entry).agenda =
        rest.agenda state.root state.orphans [] := agenda_flushEntry _ _
    have hparts : ({ state with stack := rest }.flushEntry frame.scope.entry).root = state.root ∧
        ({ state with stack := rest }.flushEntry frame.scope.entry).orphans = state.orphans := by
      cases frame.scope.entry <;> exact ⟨rfl, rfl⟩
    simp only [closeTop, hstack, release]
    split
    · rename_i hempty
      rw [houter, List.isEmpty_iff.1 hempty]
    · rw [if_neg Bool.false_ne_true, agenda_handOver, hparts.1, hparts.2, flushEntry_stack]
  rw [hclosed, agenda, hstack, Stack.agenda_nil_cons]

/-- The end of a frame ends the item in it. What waited for the end of the frame is handed over. -/
theorem releases_closeTop {frame : Frame} {rest : Stack} (hstack : state.stack = frame :: rest) :
    Releases state (state.closeTop false) (waitAt (rest.length + 2) frame.scope.waiting) := by
  refine ⟨agenda_closeTop hstack, ?_⟩
  have hsolid : ({ state with stack := rest }.flushEntry frame.scope.entry).solid =
      (frame.scope.waiting.map moved).reverse ++ state.solid := solid_flushEntry _ _
  rw [map_snd_waitAt]
  simp only [closeTop, hstack, release]
  split
  · exact hsolid
  · rw [if_neg Bool.false_ne_true, solid_handOver]
    exact hsolid

/-- At the end of the document, what waited for the end of a frame is written at once. -/
theorem drains_closeTop_atEnd (h : state.InOrder) {frame : Frame} {rest : Stack}
    (hstack : state.stack = frame :: rest) :
    Drains state (state.closeTop true)
      (waitAt (rest.length + 2) frame.scope.waiting ++
        waitAt (Stack.itemLevel state.root rest) frame.relocations) := by
  have hclosed : (state.closeTop true).agenda = rest.agenda state.root state.orphans [] ∧
      (state.closeTop true).solid = (frame.relocations.map moved).reverse ++
        ((frame.scope.waiting.map moved).reverse ++ state.solid) := by
    have houter : ({ state with stack := rest }.flushEntry frame.scope.entry).agenda =
        rest.agenda state.root state.orphans [] := agenda_flushEntry _ _
    have hsolid : ({ state with stack := rest }.flushEntry frame.scope.entry).solid =
        (frame.scope.waiting.map moved).reverse ++ state.solid := solid_flushEntry _ _
    simp only [closeTop, hstack, release]
    split
    · rename_i hempty
      rw [List.isEmpty_iff.1 hempty]
      exact ⟨houter, hsolid⟩
    · rw [if_true, solid_flush]
      exact ⟨houter, congrArg _ hsolid⟩
  have hagenda : state.agenda =
      waitAt (rest.length + 2) frame.scope.waiting ++
        rest.agenda state.root state.orphans frame.relocations := by
    rw [agenda, hstack, Stack.agenda_nil_cons]
  have hinside := h.inside
  have htidy := h.tidy
  rw [hstack] at hinside htidy
  rw [List.pairwise_cons] at hinside
  refine ⟨?_, ?_, ?_⟩
  · rw [hagenda, hclosed.1, List.append_assoc]
    exact (Stack.perm_agenda _ _).append_left _
  · rw [hclosed.1, List.append_assoc]
    have hlevel : ∀ waiting ∈ rest.agenda state.root state.orphans [],
        waiting.1 ≤ Stack.itemLevel state.root rest := fun waiting hwaiting =>
      Stack.level_le_itemLevel (fun f hf => htidy f (List.mem_cons_of_mem _ hf)) h.root
        (fun f hf => (hinside.1 f hf).leaf) hwaiting
    refine Stack.pairwise_append_of_level
      (Stack.pairwise_append_of_level (Stack.pairwise_agenda _ _) hlevel) ?_
    intro waiting hwaiting
    have hitem := Stack.itemLevel_le state.root rest
    rcases List.mem_append.1 hwaiting with hwaiting | hwaiting
    · have hsame := fst_of_mem_waitAt hwaiting
      omega
    · have hle := hlevel waiting hwaiting
      omega
  · rw [hclosed.2, List.map_append, List.reverse_append, map_snd_waitAt, map_snd_waitAt,
      List.append_assoc]

theorem releases_closeFor (state : State) (registry : Registry) (line : Line) :
    ∃ released, Releases state (state.closeFor registry line) released ∧
      ∀ waiting ∈ released, (state.closeFor registry line).stack.length + 1 < waiting.1 := by
  refine closeFor_keeps
    (P := fun closed => ∃ released, Releases state closed released ∧
      ∀ waiting ∈ released, closed.stack.length + 1 < waiting.1)
    ?_ registry line ⟨[], .of_eq rfl rfl, nofun⟩
  rintro closed ⟨released, hreleases, hreleased⟩
  cases hstack : closed.stack with
  | nil =>
    rw [closeTop_of_nil hstack]
    exact ⟨released, hreleases, hreleased⟩
  | cons frame rest =>
    refine ⟨_, hreleases.trans (releases_closeTop hstack), ?_⟩
    intro waiting hwaiting
    rw [closeTop_stack_length, hstack, List.length_cons]
    rcases List.mem_append.1 hwaiting with hwaiting | hwaiting
    · have hlevel := hreleased waiting hwaiting
      rw [hstack, List.length_cons] at hlevel
      omega
    · have hlevel := fst_of_mem_waitAt hwaiting
      omega

theorem agenda_record (state : State) (line : Line) (placement : Placement) :
    (state.record line placement).agenda =
      (state.withScope (state.scope.record line placement).1).agenda := by
  rw [record, agenda_flushEntry]

/-- A line that is recorded in the place of an item releases what waited for it. -/
theorem releases_record (state : State) (line : Line) (placement : Placement) :
    Releases state (state.record line placement)
      (waitAt (state.stack.length + 1)
        ((state.scope.record line placement).2.elim [] Entry.pending)) := by
  have hsplit := waiting_record state.scope line placement
  have hagenda := agenda_record state line placement
  generalize hrecorded : state.scope.record line placement = recorded at hsplit hagenda ⊢
  obtain ⟨scope, ended⟩ := recorded
  have hsolid : (state.record line placement).solid =
      ((ended.elim [] Entry.pending).map moved).reverse ++ state.solid := by
    have hwritten : (state.withScope scope).solid = state.solid := by
      simp only [withScope]
      split <;> rfl
    simp only [record, hrecorded, solid_flushEntry, hwritten]
  refine ⟨?_, ?_⟩
  · rw [hagenda]
    cases hstack : state.stack with
    | nil =>
      simp only [State.scope, hstack] at hsplit
      simp only [agenda, withScope, hstack, Stack.agenda_nil_nil, ← hsplit, waitAt_append,
        List.length_nil, Nat.zero_add, List.append_assoc]
    | cons frame rest =>
      simp only [State.scope, hstack] at hsplit
      simp only [agenda, withScope, hstack, Stack.agenda_nil_cons, ← hsplit, waitAt_append,
        List.length_cons, List.append_assoc]
  · rw [hsolid, map_snd_waitAt]

theorem level_le_of_mem_agenda_record {line : Line} {indent : Nat} {waiting : Nat × OutLine}
    (h : waiting ∈ (state.record line (.entry indent)).agenda) :
    waiting.1 ≤ state.stack.length := by
  rw [agenda_record, Scope.record, agenda] at h
  cases hstack : state.stack with
  | nil =>
    simp only [withScope, hstack, Stack.agenda_nil_nil, Scope.waiting, Option.elim_some,
      Entry.pending_ofLine, waitAt_nil, List.nil_append] at h
    rw [fst_of_mem_waitAt h]
    exact Nat.le_refl 0
  | cons frame rest =>
    simp only [withScope, hstack, Stack.agenda_nil_cons, Scope.waiting, Option.elim_some,
      Entry.pending_ofLine, waitAt_nil, List.nil_append] at h
    exact Stack.level_le_of_mem_agenda h

theorem drains_closeAtEnd (h : state.InOrder) (count : Nat) :
    ∃ released, Drains state (closeAtEnd count state) released := by
  refine (closeAtEnd_keeps
    (P := fun closed => closed.InOrder ∧ ∃ released, Drains state closed released)
    ?_ count ⟨h, [], .of_eq rfl rfl⟩).2
  rintro closed ⟨hclosed, released, hdrains⟩
  refine ⟨hclosed.closeTop true, ?_⟩
  cases hstack : closed.stack with
  | nil =>
    rw [closeTop_of_nil hstack]
    exact ⟨released, hdrains⟩
  | cons frame rest => exact ⟨_, hdrains.trans (drains_closeTop_atEnd hclosed hstack)⟩

end State

open State in
/-- The end of the document drains the agenda. -/
theorem drains_unwind {state : State} (h : state.InOrder) :
    (unwind state).agenda = [] ∧ ∃ released, Drains state (unwind state) released := by
  obtain ⟨released, hclosed⟩ := drains_closeAtEnd h state.stack.length
  have hstack := stack_closeAtEnd state
  simp only [unwind]
  generalize State.closeAtEnd state.stack.length state = closed at hclosed hstack ⊢
  generalize hended : { closed with root := { closed.root with entry := none } }.flushEntry
    closed.root.entry = ended
  have hparts : ended.stack = [] ∧ ended.root.waiting = [] ∧ ended.orphans = closed.orphans ∧
      ended.solid = (closed.root.waiting.map moved).reverse ++ closed.solid := by
    subst hended
    refine ⟨?_, ?_, ?_, solid_flushEntry _ _⟩
    · rw [flushEntry_stack, hstack]
    · cases closed.root.entry <;> rfl
    · cases closed.root.entry <;> rfl
  obtain ⟨hended, hroot, horphans, hsolid⟩ := hparts
  have hagenda : ({ ended with orphans := [] }.flush ended.orphans).agenda = [] := by
    rw [agenda]
    simp [flush, hended, hroot]
  have hbefore : closed.agenda =
      waitAt 1 closed.root.waiting ++ waitAt 0 closed.orphans := by
    rw [agenda, hstack, Stack.agenda_nil_nil]
  have hlast : Drains closed ({ ended with orphans := [] }.flush ended.orphans)
      (waitAt 1 closed.root.waiting ++ waitAt 0 closed.orphans) := by
    refine ⟨?_, ?_, ?_⟩
    · rw [hagenda, hbefore, List.append_nil]
    · rw [hagenda, ← hbefore, List.append_nil]
      exact Stack.pairwise_agenda _ _
    · have hwritten : ({ ended with orphans := [] } : State).solid = ended.solid := rfl
      rw [solid_flush, hwritten, hsolid, List.map_append, List.reverse_append, map_snd_waitAt,
        map_snd_waitAt, horphans, List.append_assoc]
  exact ⟨hagenda, _, hclosed.trans hlast⟩

namespace State

/-! ### Lines that are added -/

variable {state : State}

theorem agenda_liftOut {frame : Frame} {rest : Stack} (hstack : state.stack = frame :: rest)
    (input : InputLine) (key : Text) :
    (state.liftOut input key).agenda.Perm
      ((state.ownerLevel,
        { body := Text.spaces frame.baseIndent ++ input.line.content, ending := input.ending,
          number := input.number, moved := true, trivia := false }) :: state.agenda) := by
  have hlevel : state.ownerLevel = Stack.itemLevel state.root rest := by
    rw [ownerLevel, hstack, List.tail_cons]
  simp only [liftOut, hstack, agenda, Stack.agenda_nil_cons]
  have hlifted := fun lines =>
    (@Stack.perm_agenda state.root state.orphans lines rest).append_left
      (waitAt (rest.length + 2) frame.scope.waiting)
  refine (hlifted _).trans (.trans ?_ ((hlifted frame.relocations).symm.cons _))
  rw [← Multiset.coe_eq_coe, hlevel]
  simp only [waitAt, List.map_append, List.map_cons, List.map_nil, moved, Relocation.render,
    ← Multiset.coe_add, ← Multiset.cons_coe, ← Multiset.singleton_add, Multiset.coe_nil]
  abel

/-- It waits behind all other lines at that level, if the frames are in order. -/
theorem InOrder.exists_agenda_liftOut (h : state.InOrder) {frame : Frame} {rest : Stack}
    (hstack : state.stack = frame :: rest) (input : InputLine) (key : Text) :
    ∃ above below, state.agenda = above ++ below ∧
      (state.liftOut input key).agenda =
        above ++ (state.ownerLevel,
          { body := Text.spaces frame.baseIndent ++ input.line.content, ending := input.ending,
            number := input.number, moved := true, trivia := false }) :: below ∧
      ∀ waiting ∈ below, waiting.1 < state.ownerLevel := by
  have hinside := h.inside
  have htidy := h.tidy
  rw [hstack, List.pairwise_cons] at hinside
  rw [hstack, List.forall_mem_cons] at htidy
  obtain ⟨below, hbelow, hagenda, _⟩ := @Stack.agenda_handed state.root state.orphans rest
    htidy.2 h.root fun outer houter => (hinside.1 outer houter).leaf
  have hlevel : state.ownerLevel = Stack.itemLevel state.root rest := by
    rw [ownerLevel, hstack, List.tail_cons]
  rw [hlevel]
  refine ⟨waitAt (rest.length + 2) frame.scope.waiting ++
    waitAt (Stack.itemLevel state.root rest)
      (Stack.kept state.root state.orphans rest ++ frame.relocations), below, ?_, ?_, hbelow⟩
  · rw [agenda, hstack, Stack.agenda_nil_cons, hagenda, List.append_assoc]
  · simp only [State.liftOut, hstack, agenda, Stack.agenda_nil_cons, hagenda, waitAt_append,
      List.append_assoc]
    rfl

end State
end Pass
end Reindent
