import Reindent.Proofs.Pass.Lookahead
import Reindent.Proofs.Pass.Marker
import Reindent.Proofs.Pass.Nesting
import Reindent.Proofs.Pass.Outline
import Reindent.Proofs.Pass.Outside

/-!
# Reindent.Proofs.Pass.LeftEdge

Documents whose children are items at the left edge.

* `Line.ItemAtEdge`      — a line that may stand at the left edge as an item only.
* `State.OffEdge`        — no open frame reaches the left edge.
* `Visit.step_above_top` — a line above an item at the left edge is treated as at the end of the
  document.
* `State.HasTopItem`     — the last child of the document is an item at the left edge.
* `stepsAbove_top`       — all lines above such an item.
-/

namespace Reindent

/-- Only items stand at the left edge. -/
def Line.ItemAtEdge (line : Line) : Prop :=
  line.indent = 0 → line.isItem = true

/-- An item at the left edge. -/
structure Line.IsTopItem (line : Line) : Prop where
  left : line.indent = 0
  item : line.isItem = true

theorem Line.isStructural_of_isItem {line : Line} (hitem : line.isItem = true) :
    line.isStructural = true := by
  simp only [isItem, beq_iff_eq] at hitem
  simp [isStructural, isTrivia, hitem]

theorem Line.columns_pos {line : Line} (hread : line.IsRead) (hedge : line.ItemAtEdge)
    {indent column base : Nat} (h : line.openKeyColumns? indent = some (column, base)) :
    0 < column ∧ (line.indent ≤ indent → 0 < base) := by
  simp only [openKeyColumns?] at h
  split at h
  · rename_i hopens
    simp only [itemOpensKey, Bool.and_eq_true] at hopens
    have hpayload := payloadOffset_pos hread hopens.1.1
    simp only [Option.some.injEq, Prod.mk.injEq] at h
    omega
  · split at h
    · rename_i hkey
      have hright : line.indent ≠ 0 := by
        intro hleft
        have hitem := hedge hleft
        simp only [beq_iff_eq] at hkey
        simp [isItem, hkey] at hitem
      simp only [Option.some.injEq, Prod.mk.injEq] at h
      omega
    · cases h

theorem head?_outside (first : Nat) (lines : List RawLine) :
    (outside none lines).head? = InputLine.nextStructural? (InputLine.ofLines first lines) := by
  induction lines generalizing first with
  | nil => rfl
  | cons raw rest ih =>
    cases hline : (Line.ofText raw.body).isStructural with
    | true =>
      have hout : raw.isOutside none = true := by simp [RawLine.isOutside, hline]
      rw [outside, if_pos hout, List.head?_cons, InputLine.ofLines,
        InputLine.nextStructural?_cons hline]
    | false =>
      have hout : raw.isOutside none = false := by simp [RawLine.isOutside, hline]
      have hopener : openAfter none raw = none := by simp [openAfter, RawLine.opens?, hline]
      have hnext : InputLine.nextStructural? (InputLine.ofLines first (raw :: rest)) =
          InputLine.nextStructural? (InputLine.ofLines (first + 1) rest) := by
        rw [InputLine.ofLines, InputLine.nextStructural?, List.find?_cons, hline]
        rfl
      rw [outside, hout, if_neg Bool.false_ne_true, hopener, hnext]
      exact ih (first + 1)

namespace Pass

variable {registry : Registry}

/-! ### An item at the left edge as the next line -/

namespace State

variable {state : State} {line next : Line}

/-- No open frame reaches the left edge. -/
def OffEdge (state : State) : Prop :=
  ∀ frame ∈ state.stack, 0 < frame.inputIndent

theorem offEdge_initial : OffEdge {} :=
  fun _ hframe => absurd hframe List.not_mem_nil

theorem closesAt_of_pos {frame : Frame} (hframe : 0 < frame.inputIndent)
    (hleft : line.indent = 0) : frame.closesAt registry line = true := by
  simp only [Frame.closesAt, hleft]
  rw [if_pos (Nat.ne_of_lt hframe)]
  exact decide_eq_true hframe

theorem OffEdge.not_listsUnder (h : state.OffEdge) (hleft : next.indent = 0) {column base : Nat}
    (hcolumn : 0 < column) (hbase : state.stack = [] → 0 < base) :
    state.listsUnder registry column base next = false := by
  have hpredicted : state.predict? registry next ≠ some (.entry base) := by
    intro hpredicted
    rw [predict?] at hpredicted
    cases hstack : state.stack with
    | nil =>
      have hindent := placeAtRoot_indent state.root next
      simp only [hstack, List.head?_nil, Option.any_none, Bool.false_eq_true, if_false, place,
        Option.some.injEq] at hpredicted
      rw [hpredicted, hleft] at hindent
      exact Nat.ne_of_gt (hbase hstack) hindent
    | cons frame rest =>
      have hcloses := @closesAt_of_pos registry _ _ (h frame (by simp [hstack])) hleft
      simp [hstack, hcloses] at hpredicted
  simp only [listsUnder, Bool.and_eq_false_iff, Bool.or_eq_false_iff, beq_eq_false_iff_ne]
  exact .inr ⟨by omega, hpredicted⟩

/-- A line above an item at the left edge opens what it would open at the end of the document. -/
theorem OffEdge.opening?_top (h : state.OffEdge) (hnext : next.IsTopItem) {placement : Placement}
    {indent : Nat}
    (hcolumns : ∀ column base, line.openKeyColumns? indent = some (column, base) →
      0 < column ∧ (state.stack = [] → 0 < base)) :
    state.opening? registry line placement indent (some next) =
      state.opening? registry line placement indent none := by
  have hargs : ∀ column, state.continuesInlineArgs registry column next = false := by
    intro column
    simp [continuesInlineArgs, hnext.item]
  simp only [opening?, frameFor?]
  cases line.key with
  | none => rfl
  | some key =>
    cases hopens : line.openKeyColumns? indent with
    | none => rfl
    | some columns =>
      obtain ⟨hcolumn, hbase⟩ := hcolumns _ _ hopens
      have hlists := @not_listsUnder registry _ _ h hnext.left _ _ hcolumn hbase
      simp only [Option.bind_eq_bind, Option.bind_some, Option.filter_some, Option.filter_none,
        hargs, hlists]
      rfl

end State

namespace Visit

variable {visit : Visit} {next : Line} {frame : Frame}

theorem offEdge_ready (h : visit.state.OffEdge) : (visit.ready registry).OffEdge :=
  forall_stack_ready ⟨fun _ _ h => h, fun _ _ h => h⟩ h

theorem offEdge_recorded (h : visit.state.OffEdge) :
    ((visit.ready registry).record visit.input.line (visit.placement registry)).OffEdge :=
  State.forall_stack_record (offEdge_ready h) fun _ h => h

theorem columns_pos (hread : visit.input.line.IsRead) (hline : visit.input.line.ItemAtEdge)
    {column base : Nat}
    (h : visit.input.line.openKeyColumns? ((visit.placement registry).indent visit.input.line) =
      some (column, base)) :
    0 < column ∧
      (((visit.ready registry).record visit.input.line (visit.placement registry)).stack = [] →
        0 < base) := by
  obtain ⟨hcolumn, hbase⟩ := Line.columns_pos hread hline h
  refine ⟨hcolumn, fun hrecorded => hbase ?_⟩
  have hhead := State.head?_record (visit.ready registry) visit.input.line
  cases hstack : (visit.ready registry).stack with
  | nil =>
    have hplace : visit.placement registry =
        placeAtRoot (visit.ready registry).root visit.input.line := by
      simp only [placement, State.place, hstack]
    rw [hplace, placeAtRoot_indent]
  | cons frame rest =>
    rw [← placement, hrecorded, hstack] at hhead
    cases hhead

theorem step_above_top (hread : visit.input.line.IsRead) (h : visit.state.OffEdge)
    (hline : visit.isStructural = true → visit.input.line.ItemAtEdge) (hnext : next.IsTopItem)
    {rest : List InputLine}
    (hrest : InputLine.nextStructural? rest =
      (InputLine.nextStructural? visit.rest).or (some next)) :
    visit.state.step registry visit.input rest =
      visit.state.step registry visit.input visit.rest := by
  cases hstructural : visit.isStructural with
  | false => exact step_of_not_isStructural hstructural rest
  | true =>
    cases hbelow : InputLine.nextStructural? visit.rest with
    | some below =>
      rw [hbelow, Option.some_or, ← hbelow] at hrest
      simp only [State.step, hrest]
    | none =>
      rw [hbelow, Option.none_or] at hrest
      refine step_congr hstructural ?_ ?_
      · rw [hrest, hbelow]
        simp [State.verdict, hnext.left]
      · rw [opened?, opened?, hbelow]
        simp only [hrest]
        exact (offEdge_recorded h).opening?_top hnext fun column base =>
          columns_pos hread (hline hstructural)

/-- A frame that is opened is off the left edge if the line below it is no other than an item
there. -/
theorem inputIndent_pos_of_opened? (hread : visit.input.line.IsRead) (h : visit.state.OffEdge)
    (hline : visit.input.line.ItemAtEdge)
    (hahead : ∀ next, InputLine.nextStructural? visit.rest = some next → next.ItemAtEdge)
    (hopened : visit.opened? registry = some frame) : 0 < frame.inputIndent := by
  cases State.opens_of_opening? hopened with
  | role _ hcolumns _ => exact (columns_pos hread hline hcolumns).1
  | @list key column base below _ hcolumns hbelow hlists =>
    obtain ⟨hcolumn, hbase⟩ := columns_pos hread hline hcolumns
    refine Nat.lt_min.2 ⟨hcolumn, Nat.pos_of_ne_zero fun hleft => ?_⟩
    rw [(offEdge_recorded h).not_listsUnder hleft hcolumn hbase] at hlists
    cases hlists
  | @inline key column base below _ _ _ hbelow hcontinues =>
    refine Nat.pos_of_ne_zero fun hleft => ?_
    have hitem := hahead below hbelow hleft
    simp [State.continuesInlineArgs, hitem] at hcontinues

end Visit

end Pass

/-! ### The children of the document -/

/-- The first child stands at the left edge, and the last one is an item there. -/
structure Scope.HoldsTopItem (scope : Scope) : Prop where
  childInput : scope.childInput = some 0
  entry : ∃ entry, scope.entry = some entry ∧ entry.input = 0 ∧ entry.item = true

namespace Scope.HoldsTopItem

variable {scope : Scope} {line : Line}

theorem append (h : scope.HoldsTopItem) (lines : List Relocation) :
    (scope.append lines).HoldsTopItem := by
  obtain ⟨hchild, entry, hentry, hinput, hitem⟩ := h
  refine ⟨hchild, { entry with pending := entry.pending ++ lines }, ?_, hinput, hitem⟩
  rw [Scope.append, hentry, Option.map_some]

theorem exists_item (h : scope.HoldsTopItem) : ∃ item, scope.item? = some item := by
  obtain ⟨_, entry, hentry, _, hitem⟩ := h
  exact ⟨entry, by rw [item?, hentry, Option.filter_some, if_pos hitem]⟩

theorem ofLine (hline : line.IsTopItem) (output : Nat) :
    HoldsTopItem { childInput := some 0, entry := some (Entry.ofLine line output) } := by
  have hparts : (Entry.ofLine line output).input = line.indent ∧
      (Entry.ofLine line output).item = line.isItem := by
    simp only [Entry.ofLine]
    split <;> exact ⟨rfl, rfl⟩
  exact ⟨rfl, _, rfl, hparts.1.trans hline.left, hparts.2.trans hline.item⟩

theorem record (h : scope.HoldsTopItem) (hline : line.ItemAtEdge) :
    (scope.record line (placeAtRoot scope line)).1.HoldsTopItem := by
  obtain ⟨hchild, entry, hentry, hinput, hitem⟩ := h
  simp only [placeAtRoot, hentry, hinput]
  split
  · split
    · refine ⟨hchild, entry.addMember line line.indent, ?_, hinput, hitem⟩
      simp only [Scope.record, hentry, Option.map_some]
    · exact ⟨hchild, entry, hentry, hinput, hitem⟩
  · rename_i hleft
    have hleft : line.indent = 0 := Nat.eq_zero_of_not_pos hleft
    simp only [Scope.record, hchild, Option.getD_some]
    exact .ofLine ⟨hleft, hline hleft⟩ _

end Scope.HoldsTopItem

namespace Pass
namespace State

variable {state next : State}

/-- The last child of the document is an item at the left edge, so that nothing waits for the end of
the document. -/
structure HasTopItem (state : State) : Prop where
  root : state.root.HoldsTopItem
  orphans : state.orphans = []

/-- Nothing but blank lines and comments has come. -/
structure Untouched (state : State) : Prop where
  stack : state.stack = []
  root : state.root = {}
  orphans : state.orphans = []
  body : state.body = none

theorem orphans_flushEntry (state : State) (entry : Option Entry) :
    (state.flushEntry entry).orphans = state.orphans := by
  cases entry <;> rfl

theorem orphans_record (state : State) (line : Line) (placement : Placement) :
    (state.record line placement).orphans = state.orphans := by
  simp only [record, orphans_flushEntry]
  simp only [withScope]
  split <;> rfl

theorem orphans_settled (state : State) (input : InputLine) :
    (state.settled input).orphans = state.orphans := by
  have hwritten : ∀ (state : State) (column : Nat),
      (state.writeAt input column).orphans = state.orphans := by
    intro state column
    simp only [writeAt]
    split <;> rfl
  simp only [settled, hwritten, orphans_record]

theorem orphans_openFrame {frame : Frame} (h : state.openFrame frame = .ok next) :
    next.orphans = state.orphans := by
  simp only [openFrame] at h
  split at h
  · cases h
    rfl
  · cases h

theorem orphans_passThrough (state : State) (input : InputLine) :
    (state.passThrough input).orphans = state.orphans := by
  simp only [passThrough]
  split <;> rfl

namespace HasTopItem

theorem congr (h : state.HasTopItem) (hroot : next.root = state.root)
    (horphans : next.orphans = state.orphans) : next.HasTopItem :=
  ⟨hroot ▸ h.root, horphans.trans h.orphans⟩

theorem handOver (h : state.HasTopItem) (lines : List Relocation) :
    (state.handOver lines).HasTopItem := by
  obtain ⟨item, hitem⟩ := h.root.exists_item
  simp only [State.handOver, hitem]
  split
  · exact h.congr rfl rfl
  · exact ⟨h.root.append lines, h.orphans⟩

theorem closeTop (h : state.HasTopItem) : (state.closeTop false).HasTopItem := by
  cases hstack : state.stack with
  | nil =>
    simp only [State.closeTop, hstack]
    exact h
  | cons frame rest =>
    have hrest : ({ state with stack := rest }.flushEntry frame.scope.entry).HasTopItem :=
      h.congr (root_flushEntry _ _) (orphans_flushEntry _ _)
    simp only [State.closeTop, hstack, release]
    split
    · exact hrest
    · exact hrest.handOver _

theorem closeUpTo (h : state.HasTopItem) (line : Line) (count : Nat) :
    (closeUpTo registry line count state).HasTopItem :=
  closeUpTo_keeps (fun _ h => h.closeTop) registry line count h

theorem record (h : state.HasTopItem) {line : Line} (hline : line.ItemAtEdge) :
    (state.record line (state.place line)).HasTopItem := by
  refine ⟨?_, (orphans_record _ _ _).trans h.orphans⟩
  cases hstack : state.stack with
  | nil =>
    simp only [State.record, State.scope, State.place, withScope, hstack, root_flushEntry]
    exact h.root.record hline
  | cons frame rest =>
    rw [root_record_cons line _ hstack]
    exact h.root

end HasTopItem

theorem Untouched.record (h : state.Untouched) {line : Line} (hline : line.IsTopItem) :
    (state.record line (state.place line)).HasTopItem := by
  refine ⟨?_, (orphans_record _ _ _).trans h.orphans⟩
  simp only [State.record, State.scope, State.place, withScope, h.stack, root_flushEntry, h.root,
    placeAtRoot, Scope.record, Option.getD_none, hline.left]
  exact .ofLine hline 0

end State

namespace Visit

variable {visit : Visit} {next : State}

theorem hasTopItem_of_record (hplaced : visit.isPlaced registry = true)
    (h : ((visit.ready registry).record visit.input.line (visit.placement registry)).HasTopItem)
    (hstep : visit.state.step registry visit.input visit.rest = .ok next) : next.HasTopItem := by
  obtain ⟨events, hopened⟩ := step_eq_opened hplaced
  rw [hstep] at hopened
  have hsettled : (((visit.ready registry).withEvents events).settled visit.input).HasTopItem := by
    refine h.congr (root_settled registry visit events) ?_
    rw [State.orphans_settled, State.orphans_record]
    rfl
  split at hopened
  · exact hsettled.congr (State.root_openFrame hopened.symm) (State.orphans_openFrame hopened.symm)
  · cases hopened
    exact hsettled

theorem hasTopItem_step (h : visit.state.HasTopItem)
    (hline : visit.isStructural = true → visit.input.line.ItemAtEdge)
    (hstep : visit.state.step registry visit.input visit.rest = .ok next) : next.HasTopItem := by
  have houtside : State.HasTopItem { visit.state with body := none } := h.congr rfl rfl
  have hready : (visit.ready registry).HasTopItem := houtside.closeUpTo _ _
  have houtcome := outcome_step registry visit
  rw [hstep] at houtcome
  generalize hresult : Except.ok next = result at houtcome
  cases houtcome with
  | text _ _ =>
    cases hresult
    refine h.congr (State.root_writeBody _ _ _) ?_
    simp only [State.writeBody]
    split <;> rfl
  | loose _ _ =>
    cases hresult
    exact h.congr (State.root_passThrough _ _) (State.orphans_passThrough _ _)
  | @relocated frame rest key events _ hstack =>
    cases hresult
    have hlogged : ((visit.ready registry).withEvents events).stack = frame :: rest := hstack
    refine hready.congr ?_ ?_
    · simp only [State.liftOut, hlogged]
      rfl
    · simp only [State.liftOut, hlogged]
      rfl
  | placed hplaced =>
    exact hasTopItem_of_record hplaced (hready.record (hline (isPlaced_iff.1 hplaced).1)) hstep

theorem hasTopItem_first (h : visit.state.Untouched) (hstructural : visit.isStructural = true)
    (hline : visit.input.line.IsTopItem)
    (hstep : visit.state.step registry visit.input visit.rest = .ok next) : next.HasTopItem := by
  have hready : visit.ready registry = visit.state := by
    have hbody : { visit.state with body := none } = visit.state := by
      have hnone := h.body
      cases hstate : visit.state
      rw [hstate] at hnone
      cases hnone
      rfl
    rw [ready, hbody, State.closeFor_nil h.stack]
  have hlifted : visit.isLifted registry = false := by
    rw [isLifted, hready, State.verdict_nil h.stack]
  refine hasTopItem_of_record (isPlaced_iff.2 ⟨hstructural, hlifted⟩) ?_ hstep
  rw [placement, hready]
  exact h.record hline

theorem untouched_step (h : visit.state.Untouched) (hloose : visit.isStructural = false)
    (hstep : visit.state.step registry visit.input visit.rest = .ok next) : next.Untouched := by
  have htext : visit.isText = false := by rw [isText, h.body]; rfl
  have hline : visit.input.line.isStructural = false := by
    simpa [isStructural, htext] using hloose
  rw [step_of_not_isText htext, hline, if_neg Bool.false_ne_true] at hstep
  cases hstep
  refine ⟨?_, ?_, ?_, ?_⟩
  · rw [State.stack_passThrough]
    exact h.stack
  · rw [State.root_passThrough]
    exact h.root
  · rw [State.orphans_passThrough]
    exact h.orphans
  · rw [State.body_passThrough]

theorem offEdge_step (hread : visit.input.line.IsRead) (h : visit.state.OffEdge)
    (hline : visit.isStructural = true → visit.input.line.ItemAtEdge)
    (hahead : visit.isStructural = true → visit.input.line.blockScalar = false →
      ∀ next, InputLine.nextStructural? visit.rest = some next → next.ItemAtEdge)
    (hstep : visit.state.step registry visit.input visit.rest = .ok next) : next.OffEdge := by
  refine forall_stack_step ⟨fun _ _ h => h, fun _ _ h => h⟩ (fun hplaced frame hopened => ?_)
    (fun _ h => h) h hstep
  have hstructural := (isPlaced_iff.1 hplaced).1
  have hscalar := (State.opens_of_opening? hopened).not_blockScalar hread
  exact inputIndent_pos_of_opened? hread h (hline hstructural) (hahead hstructural hscalar) hopened

end Visit

/-! ### The lines above an item at the left edge -/

/-- Nothing at the left edge but items: the last of them is open, or the first one is still to
come. -/
structure State.AboveTop (opener : Option Nat) (lines : List RawLine) (state : State) : Prop where
  body : state.body.map ScalarBody.opener = opener
  edge : ∀ line ∈ outside opener lines, line.ItemAtEdge
  offEdge : state.OffEdge
  top : state.HasTopItem ∨
    state.Untouched ∧ ∃ first, (outside opener lines).head? = some first ∧ first.IsTopItem

/-- A step from one of these lines to the next. -/
theorem aboveTop_step {opener : Option Nat} {raw : RawLine} {lines : List RawLine} {visit : Visit}
    {next : State} {first : Nat} (h : visit.state.AboveTop opener (raw :: lines))
    (hline : visit.input.line = Line.ofText raw.body)
    (hrest : visit.rest = InputLine.ofLines first lines)
    (hstep : visit.state.step registry visit.input visit.rest = .ok next) :
    next.AboveTop (openAfter opener raw) lines := by
  obtain ⟨hopener, hedge, hoff, htop⟩ := h
  obtain ⟨hfirst, hlines⟩ := forall_outside_cons hedge
  have hread : visit.input.line.IsRead := hline ▸ Line.isRead_ofText raw.body
  have houtside : visit.isStructural = raw.isOutside opener := by
    rw [← hopener]
    exact Visit.isStructural_eq hline
  have hitem : visit.isStructural = true → visit.input.line.ItemAtEdge := by
    rw [houtside, hline]
    exact hfirst
  refine ⟨?_, hlines, Visit.offEdge_step hread hoff hitem ?_ hstep, ?_⟩
  · rw [Visit.opener_step hline hstep, hopener]
  · intro hstructural hscalar below hbelow
    rw [openAfter_of_not_blockScalar (houtside ▸ hstructural) (hline ▸ hscalar)] at hlines
    rw [hrest, ← head?_outside first lines] at hbelow
    exact hlines below (List.mem_of_mem_head? hbelow)
  · rcases htop with htop | ⟨huntouched, head, hhead, htop⟩
    · exact .inl (Visit.hasTopItem_step htop hitem hstep)
    · rw [outside] at hhead
      cases hstructural : visit.isStructural with
      | true =>
        rw [← houtside, hstructural, if_pos rfl, List.head?_cons, Option.some.injEq] at hhead
        refine .inl (Visit.hasTopItem_first huntouched hstructural ?_ hstep)
        rw [hline, hhead]
        exact htop
      | false =>
        rw [← houtside, hstructural, if_neg Bool.false_ne_true] at hhead
        exact .inr ⟨Visit.untouched_step huntouched hstructural hstep, head, hhead, htop⟩

/-- The lines above an item at the left edge are treated as if the document ended there, and leave
an item there open. -/
theorem stepsAbove_top {opener : Option Nat} {lines : List RawLine} {state : State}
    (h : state.AboveTop opener lines) {below : Line} (hbelow : below.IsTopItem)
    {rest : List InputLine} (hrest : InputLine.nextStructural? rest = some below) (first : Nat) :
    stepsAbove registry state (InputLine.ofLines first lines) rest =
        steps registry state (InputLine.ofLines first lines) ∧
      ∀ final, steps registry state (InputLine.ofLines first lines) = .ok final →
        final.OffEdge ∧ final.HasTopItem := by
  induction lines generalizing state opener first with
  | nil =>
    refine ⟨rfl, fun final hfinal => ?_⟩
    cases hfinal
    refine ⟨h.offEdge, h.top.resolve_right ?_⟩
    rintro ⟨_, head, hhead, _⟩
    cases hhead
  | cons raw lines ih =>
    let visit : Visit := ⟨state, ⟨first, Line.ofText raw.body, raw.ending⟩,
      InputLine.ofLines (first + 1) lines⟩
    have hread : visit.input.line.IsRead := Line.isRead_ofText raw.body
    have hitem : visit.isStructural = true → visit.input.line.ItemAtEdge := by
      rw [@Visit.isStructural_eq raw visit rfl]
      exact h.body ▸ (forall_outside_cons h.edge).1
    have hahead : InputLine.nextStructural? (visit.rest ++ rest) =
        (InputLine.nextStructural? visit.rest).or (some below) := by
      rw [InputLine.nextStructural?_append, hrest]
    have hsame := @Visit.step_above_top registry _ _ hread h.offEdge hitem hbelow _ hahead
    rw [InputLine.ofLines, stepsAbove, steps, hsame]
    cases hstep : visit.state.step registry visit.input visit.rest with
    | error failure => exact ⟨rfl, fun _ hfinal => by cases hfinal⟩
    | ok next =>
      have hnext := @aboveTop_step registry _ _ _ visit _ _ h rfl rfl hstep
      exact ih hnext (first + 1)

end Pass
end Reindent
