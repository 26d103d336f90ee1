import Reindent.Proofs.Line.Opener
import Reindent.Proofs.Pass.Boundary
import Reindent.Proofs.Pass.Nesting
import Reindent.Proofs.Pass.Stats
import Reindent.Document

/-!
# Reindent.Proofs.Pass.Counted

What a pass counts.

* `Visit.isCounted` — the line is lifted out, or written at another column than it was read at.
* `stats_run`  — the counters of a pass are the numbers of such lines.
* `State.Calm` — the open frames as long as nothing has been counted: none is written right of where
  it ends.
* `column_ne_of_isCounted` — the first line that counts is written at another column, even if it is
  lifted out.
-/

namespace Reindent

variable {registry : Registry}

namespace Pass

namespace Visit

variable {visit : Visit} {next : State}

/-- The line is not lifted out, but written at another column than it was read at. -/
def isReindented (registry : Registry) (visit : Visit) : Bool :=
  !visit.isRelocated registry && visit.column registry != visit.input.line.indent

def isCounted (registry : Registry) (visit : Visit) : Bool :=
  visit.isRelocated registry || visit.isReindented registry

end Visit

/-! ### The counters -/

namespace State

/-- How many lines have been reindented and how many lifted out. -/
def tally (state : State) : Nat × Nat :=
  (state.stats.reindented, state.stats.relocated)

theorem tally_write (state : State) (input : InputLine) (text : Text) (trivia : Bool) :
    (state.write input text trivia).tally = state.tally := rfl

theorem tally_countReindented (state : State) :
    state.countReindented.tally = (state.tally.1 + 1, state.tally.2) := rfl

theorem tally_writeAt (state : State) (input : InputLine) (indent : Nat) :
    (state.writeAt input indent).tally =
      (state.tally.1 + (indent != input.line.indent).toNat, state.tally.2) := by
  simp only [writeAt]
  split
  · rename_i hsame
    rw [tally_write, hsame, bne_self_eq_false]
    rfl
  · rename_i hother
    rw [tally_write, tally_countReindented, bne_iff_ne.2 hother]
    rfl

theorem tally_passThrough (state : State) (input : InputLine) :
    (state.passThrough input).tally = state.tally := by
  simp only [passThrough]
  split <;> rfl

theorem tally_settle {state state' : State} {input : InputLine} {ahead : Option Line}
    (h : state.settle registry input ahead = .ok state') :
    state'.tally =
      (state.tally.1 + ((state.place input.line).indent input.line != input.line.indent).toNat,
        state.tally.2) := by
  have hwritten := tally_writeAt (state.record input.line (state.place input.line)) input
    ((state.place input.line).indent input.line)
  have hrecorded : (state.record input.line (state.place input.line)).tally = state.tally := by
    rw [tally, stats_record]
    rfl
  rw [hrecorded] at hwritten
  rw [← hwritten]
  simp only [settle] at h
  split at h
  · rw [tally, stats_openFrame h]
    rfl
  · cases h
    rfl

end State

namespace Visit

variable {visit : Visit} {next : State}

/-- Text of a block scalar that is not blank stands right of the left margin, so that it leaves its
column whenever the scalar's opener does. -/
theorem column_ne_of_text {body : ScalarBody} (htext : visit.isText = true)
    (hbody : visit.state.body = some body) :
    (visit.column registry != visit.input.line.indent) =
      !decide (body.shift = 0 ∨ visit.input.line.category = .blank) := by
  have hcontinues : State.continuesBody visit.input.line body = true := by
    simpa [isText, hbody] using htext
  simp only [State.continuesBody, Bool.or_eq_true, beq_iff_eq, decide_eq_true_eq] at hcontinues
  simp only [column, htext, hbody, if_true, Option.map_some, Option.getD_some]
  split
  · simp [*]
  · rename_i hblank
    have hdeep := hcontinues.resolve_left hblank
    by_cases hshift : body.shift = 0
    · simp [hshift]
    · have hcolumn : (visit.input.line.indent + body.shift).toNat ≠ visit.input.line.indent := by
        omega
      simp [hshift, hblank, hcolumn]

theorem tally_step (hstep : visit.state.step registry visit.input visit.rest = .ok next) :
    next.tally =
      (visit.state.tally.1 + (visit.isReindented registry).toNat,
        visit.state.tally.2 + (visit.isRelocated registry).toNat) := by
  have hready : (visit.ready registry).tally = visit.state.tally := by
    rw [State.tally, ready, State.stats_closeFor]
    rfl
  have houtcome := outcome_step registry visit
  rw [hstep] at houtcome
  generalize hresult : Except.ok next = result at houtcome
  cases houtcome with
  | @text body htext hbody =>
    cases hresult
    have hstays : visit.isRelocated registry = false := by
      simp [isRelocated, isStructural, htext]
    rw [isReindented, hstays, column_ne_of_text htext hbody, State.writeBody]
    split
    · rename_i hsame
      rw [State.tally_write, decide_eq_true hsame]
      rfl
    · rename_i hmoves
      rw [State.tally_write, State.tally_countReindented, decide_eq_false hmoves]
      rfl
  | loose htext hline =>
    cases hresult
    have hstays : visit.isRelocated registry = false := by
      simp [isRelocated, isStructural, hline]
    have hcolumn : visit.column registry = visit.input.line.indent := by
      simp [column, htext, hline]
    rw [State.tally_passThrough, isReindented, hstays, hcolumn, bne_self_eq_false]
    rfl
  | @relocated frame rest key events hrelocated hstack =>
    cases hresult
    have hlifted : ((visit.ready registry).withEvents events).stack = frame :: rest := hstack
    rw [isReindented, hrelocated, ← hready]
    simp only [State.liftOut, hlifted]
    rfl
  | @placed events hplaced =>
    obtain ⟨hstructural, hlifted⟩ := isPlaced_iff.1 hplaced
    obtain ⟨htext, hline⟩ := isStructural_iff.1 hstructural
    have hstays : visit.isRelocated registry = false := by
      simp [isRelocated, hlifted]
    have hcolumn : visit.column registry =
        (visit.placement registry).indent visit.input.line := by
      simp [column, htext, hline, hlifted]
    have hsettled := State.tally_settle hresult.symm
    rw [isReindented, hstays, hcolumn, ← hready]
    exact hsettled

end Visit

theorem tally_steps {inputs : List InputLine} {state final : State}
    (h : steps registry state inputs = .ok final) :
    final.tally =
      (state.tally.1 + (trail registry state inputs).countP (Visit.isReindented registry),
        state.tally.2 + (trail registry state inputs).countP (Visit.isRelocated registry)) := by
  induction inputs generalizing state with
  | nil =>
    cases h
    rfl
  | cons input rest ih =>
    obtain ⟨next, hstep, hrest⟩ := steps_cons_ok h
    have hnext := @Visit.tally_step registry ⟨state, input, rest⟩ next hstep
    have hcount : ∀ b : Bool, b.toNat = if b = true then 1 else 0 := by decide
    rw [ih hrest, hnext]
    simp only [trail, hstep, List.countP_cons, hcount, Prod.mk.injEq]
    constructor <;> omega

/-- The counters of a pass are the numbers of the lines that it reindents and of those that it lifts
out. -/
theorem stats_run {text : Text} {pass : Pass} (h : run registry text = .ok pass) :
    pass.stats.reindented = (trailOf registry text).countP (Visit.isReindented registry) ∧
      pass.stats.relocated = (trailOf registry text).countP (Visit.isRelocated registry) := by
  obtain ⟨final, hsteps, _, hcollect⟩ := runLines_ok h
  obtain ⟨_, _, _, hstats, _⟩ := collect_ok hcollect
  have htally := tally_steps hsteps
  rw [State.tally, Prod.mk.injEq] at htally
  rw [hstats, State.stats_unwind]
  simpa [State.tally, trailOf] using htally

theorem touched_eq_zero_iff {text : Text} {pass : Pass} (h : run registry text = .ok pass) :
    Draft.touched pass = 0 ↔ ∀ visit ∈ trailOf registry text, visit.isCounted registry = false := by
  obtain ⟨hreindented, hrelocated⟩ := stats_run h
  rw [Draft.touched, Nat.add_eq_zero_iff, hreindented, hrelocated, List.countP_eq_zero,
    List.countP_eq_zero, ← forall₂_and]
  simp only [Visit.isCounted, Bool.or_eq_false_iff, Bool.not_eq_true, and_comm]

/-! ### The first line that counts -/

end Pass

/-- The frame has been opened for the line below, which it moves to the right. -/
structure Frame.Shifts (registry : Registry) (frame : Frame) (below : Line) : Prop where
  column : below.indent = frame.inputIndent
  right : frame.inputIndent < frame.baseIndent
  fresh : frame.scope.entry = none
  child : frame.scope.childInput.getD below.indent = below.indent
  takes : (below.isItem = true ∧ frame.role.holdsItems = true) ∨
    (below.isItem = false ∧ frame.inlineArgs = true ∧ below.key.all registry.endsModuleArgs = false)

namespace Frame.Shifts

variable {frame : Frame} {below : Line} (h : frame.Shifts registry below)
include h

theorem not_closesAt : frame.closesAt registry below = false := by
  simp only [closesAt, h.column, ne_eq, not_true, if_false]
  rcases h.takes with ⟨hitem, hholds⟩ | ⟨hitem, hinline, hargument⟩
  · simp [hitem, hholds]
  · simp [hitem, hinline, hargument]

theorem place_eq : place frame below = .entry frame.childIndent := by
  have hnone : frame.scope.item? = none := by simp [Scope.item?, h.fresh]
  simp only [place, hnone, h.child, le_refl, if_true]
  split <;> rfl

end Frame.Shifts

namespace Pass
namespace State

/-- The open frames before any line has counted: none is written right of where it ends, unless it
has just been opened for the line below. -/
inductive Calm (registry : Registry) (state : State) : Option Line → Prop
  | still {ahead : Option Line} :
      (∀ frame ∈ state.stack, frame.baseIndent ≤ frame.inputIndent) → Calm registry state ahead
  | shifting {frame : Frame} {below : Line} : state.body = none →
      state.stack.head? = some frame → frame.Shifts registry below →
      Calm registry state (some below)

variable {state next : State} {ahead : Option Line}

theorem Calm.congr (h : state.Calm registry ahead) (hstack : next.stack = state.stack)
    (hbody : next.body = none) : next.Calm registry ahead := by
  cases h with
  | still hstill =>
    refine .still ?_
    rw [hstack]
    exact hstill
  | shifting _ hframe hshifts =>
    refine .shifting hbody ?_ hshifts
    rw [hstack]
    exact hframe

theorem Calm.forall_stack_of_body {body : ScalarBody} (h : state.Calm registry ahead)
    (hbody : state.body = some body) :
    ∀ frame ∈ state.stack, frame.baseIndent ≤ frame.inputIndent := by
  cases h with
  | still hstill => exact hstill
  | shifting hnone _ _ =>
    rw [hnone] at hbody
    cases hbody

theorem Opens.calm {line : Line} {placement : Placement} {frame : Frame} {rest : Stack}
    (h : state.Opens registry line placement line.indent ahead frame)
    (hbody : next.body = none) (hstack : next.stack = frame :: rest)
    (hrest : ∀ outer ∈ rest, outer.baseIndent ≤ outer.inputIndent) :
    next.Calm registry ahead := by
  have hcolumns : ∀ {column base : Nat},
      line.openKeyColumns? line.indent = some (column, base) → column = base := by
    intro column base hcolumns
    simp only [Line.openKeyColumns?] at hcolumns
    split at hcolumns
    · simp only [Option.some.injEq, Prod.mk.injEq] at hcolumns
      omega
    · split at hcolumns
      · simp only [Option.some.injEq, Prod.mk.injEq] at hcolumns
        omega
      · cases hcolumns
  have hstill : frame.baseIndent ≤ frame.inputIndent → next.Calm registry ahead := by
    intro hle
    refine .still ?_
    rw [hstack]
    exact List.forall_mem_cons.2 ⟨hle, hrest⟩
  have hhead : next.stack.head? = some frame := by rw [hstack, List.head?_cons]
  cases h with
  | role _ hkey _ =>
    obtain rfl := hcolumns hkey
    exact hstill (Nat.le_refl _)
  | @list key column base below _ hkey hahead hlists =>
    obtain rfl := hcolumns hkey
    simp only [listsUnder, Bool.and_eq_true] at hlists
    rcases Nat.lt_or_ge below.indent column with hlt | hle
    · rw [hahead]
      have hmin : min column below.indent = below.indent := Nat.min_eq_right (Nat.le_of_lt hlt)
      exact .shifting hbody hhead ⟨hmin.symm, by simpa [hmin] using hlt, rfl, rfl,
        .inl ⟨hlists.1, rfl⟩⟩
    · exact hstill (Nat.le_min.2 ⟨Nat.le_refl _, hle⟩)
  | @inline key column base below _ hkey _ hahead hcontinues =>
    obtain rfl := hcolumns hkey
    simp only [continuesInlineArgs, Bool.and_eq_true, Bool.not_eq_true', decide_eq_true_eq,
      Option.any_eq_true] at hcontinues
    obtain ⟨⟨⟨hother, hle⟩, argument, hargument, hends⟩, _⟩ := hcontinues
    rcases Nat.lt_or_eq_of_le hle with hlt | heq
    · rw [hahead]
      refine .shifting hbody hhead ⟨rfl, hlt, rfl, rfl, .inr ⟨hother, rfl, ?_⟩⟩
      rw [hargument, Option.all_some]
      exact hends
    · exact hstill (Nat.le_of_eq heq.symm)

end State

namespace Visit

variable {visit : Visit} {next : State} {frame : Frame}

theorem column_of_shifts (hstructural : visit.isStructural = true)
    (hbody : visit.state.body = none) (hframe : visit.state.stack.head? = some frame)
    (hshifts : frame.Shifts registry visit.input.line) :
    visit.input.line.indent < visit.column registry := by
  obtain ⟨htext, hline⟩ := isStructural_iff.1 hstructural
  have hready : visit.ready registry = visit.state := by
    have hstate : { visit.state with body := none } = visit.state := by
      rw [← hbody]
    rw [ready, hstate]
    exact State.closeFor_of_not_closesAt hframe hshifts.not_closesAt
  have haround : visit.frame? registry = some frame := by rw [frame?, hready, hframe]
  have hplacement := placement_eq_place haround
  rw [hshifts.place_eq] at hplacement
  have hcolumn := hshifts.column
  have hright := hshifts.right
  simp only [column, htext, hline, haround, hplacement, Bool.not_true, Bool.false_eq_true,
    if_false, Option.map_some, Option.getD_some, Placement.indent, Frame.childIndent]
  split <;> omega

/-- A line that is lifted out stands right of where the frame ends that it is lifted out of. -/
theorem inputIndent_lt_of_isRelocated (h : visit.isRelocated registry = true)
    (hframe : visit.frame? registry = some frame) :
    frame.inputIndent < visit.input.line.indent := by
  have hopen := not_closesAt_of_frame? hframe
  obtain ⟨key, around, haround, hkey, hpair, hstranded⟩ := exists_stranded h
  obtain rfl := Option.some.inj (hframe.symm.trans haround)
  have hends : registry.endsModuleArgs key = true := by
    simp only [Registry.isStranded] at hstranded
    split at hstranded
    · cases hstranded
    · rename_i hlookup
      simp [Registry.endsModuleArgs, Registry.isAttribute, hlookup]
  have hitem : visit.input.line.isItem = false := by
    simp only [Line.isInlinePair, Bool.and_eq_true, beq_iff_eq] at hpair
    simp [Line.isItem, hpair.1.1.1]
  simp only [Frame.closesAt, hitem, hkey, Option.all_some, hends] at hopen
  split at hopen
  · rw [decide_eq_false_iff_not] at hopen
    omega
  · cases hinline : frame.inlineArgs <;> simp [hinline] at hopen

section Calm

variable (h : visit.state.Calm registry (InputLine.nextStructural? (visit.input :: visit.rest)))
include h

/-- A frame that has been opened for the line moves it. -/
theorem forall_stack_of_column (hstructural : visit.isStructural = true)
    (hcolumn : visit.column registry = visit.input.line.indent) :
    ∀ frame ∈ (visit.ready registry).stack, frame.baseIndent ≤ frame.inputIndent := by
  refine forall_stack_ready ⟨fun _ _ h => h, fun _ _ h => h⟩ ?_
  rw [InputLine.nextStructural?_cons (isStructural_iff.1 hstructural).2] at h
  generalize hbelow : some visit.input.line = ahead at h
  cases h with
  | still hstill => exact hstill
  | shifting hbody hframe hshifts =>
    cases hbelow
    exact absurd hcolumn (Nat.ne_of_gt (column_of_shifts hstructural hbody hframe hshifts))

/-- Whatever counts first is written at another column than it was read at. -/
theorem column_ne_of_isCounted (hcounted : visit.isCounted registry = true) :
    visit.column registry ≠ visit.input.line.indent := by
  rw [isCounted, Bool.or_eq_true] at hcounted
  rcases hcounted with hrelocated | hreindented
  · intro hcolumn
    obtain ⟨hstructural, hlifted⟩ := isRelocated_iff.1 hrelocated
    obtain ⟨htext, hline⟩ := isStructural_iff.1 hstructural
    obtain ⟨key, frame, hframe, _⟩ := exists_stranded hrelocated
    have hle := forall_stack_of_column h hstructural hcolumn frame (List.mem_of_mem_head? hframe)
    have hlt := inputIndent_lt_of_isRelocated hrelocated hframe
    simp only [column, htext, hline, hlifted, hframe, Bool.not_true, Bool.false_eq_true, if_false,
      if_true, Option.map_some, Option.getD_some] at hcolumn
    omega
  · simp only [isReindented, Bool.and_eq_true, bne_iff_ne] at hreindented
    exact hreindented.2

theorem calm_of_isPlaced (hread : visit.input.line.IsRead)
    (hplaced : visit.isPlaced registry = true)
    (hcolumn : visit.column registry = visit.input.line.indent)
    (hstep : visit.state.step registry visit.input visit.rest = .ok next) :
    next.Calm registry (InputLine.nextStructural? visit.rest) := by
  obtain ⟨hstructural, hlifted⟩ := isPlaced_iff.1 hplaced
  obtain ⟨htext, hline⟩ := isStructural_iff.1 hstructural
  have hplacement : (visit.placement registry).indent visit.input.line =
      visit.input.line.indent := by
    simpa [column, htext, hline, hlifted] using hcolumn
  obtain ⟨events, hopened⟩ := step_eq_opened hplaced
  rw [hstep] at hopened
  have hsettled : ∀ frame ∈
      (((visit.ready registry).withEvents events).settled visit.input).stack,
      frame.baseIndent ≤ frame.inputIndent := by
    rw [stack_settled]
    exact State.forall_stack_record (forall_stack_of_column h hstructural hcolumn) fun _ h => h
  split at hopened
  · rename_i frame hframe
    have hopens := State.opens_of_opening? hframe
    rw [hplacement] at hopens
    refine hopens.calm ?_ (State.stack_openFrame hopened.symm) hsettled
    rw [State.body_openFrame hopened.symm]
    exact if_neg (by rw [hopens.not_blockScalar hread]; exact Bool.false_ne_true)
  · cases hopened
    exact .still hsettled

/-- A line that does not count leaves the frames calm. -/
theorem calm_step (hread : visit.input.line.IsRead) (hcounted : visit.isCounted registry = false)
    (hstep : visit.state.step registry visit.input visit.rest = .ok next) :
    next.Calm registry (InputLine.nextStructural? visit.rest) := by
  rw [isCounted, Bool.or_eq_false_iff] at hcounted
  obtain ⟨hstays, hindent⟩ := hcounted
  have houtcome := outcome_step registry visit
  rw [hstep] at houtcome
  generalize hresult : Except.ok next = result at houtcome
  cases houtcome with
  | text htext hbody =>
    cases hresult
    refine .still ?_
    rw [State.stack_writeBody]
    exact h.forall_stack_of_body hbody
  | loose _ hline =>
    cases hresult
    rw [InputLine.nextStructural?_of_loose hline] at h
    exact h.congr (State.stack_passThrough _ _) (State.body_passThrough _ _)
  | relocated hrelocated _ =>
    rw [hrelocated] at hstays
    cases hstays
  | placed hplaced =>
    have hcolumn : visit.column registry = visit.input.line.indent := by
      simpa [isReindented, hstays] using hindent
    exact calm_of_isPlaced h hread hplaced hcolumn hstep

end Calm

end Visit

theorem calm_of_trail {inputs : List InputLine} {state : State} {before after : List Visit}
    {visit : Visit} (hread : ∀ input ∈ inputs, input.line.IsRead)
    (h : state.Calm registry (InputLine.nextStructural? inputs))
    (htrail : trail registry state inputs = before ++ visit :: after)
    (hbefore : ∀ above ∈ before, above.isCounted registry = false) :
    visit.state.Calm registry (InputLine.nextStructural? (visit.input :: visit.rest)) := by
  induction before generalizing state inputs with
  | nil =>
    cases inputs with
    | nil => cases htrail
    | cons input rest =>
      simp only [trail, List.nil_append, List.cons.injEq] at htrail
      rw [← htrail.1]
      exact h
  | cons first before ih =>
    cases inputs with
    | nil => cases htrail
    | cons input rest =>
      simp only [trail, List.cons_append, List.cons.injEq] at htrail
      obtain ⟨hfirst, htail⟩ := htrail
      obtain ⟨hinput, hrest⟩ := List.forall_mem_cons.1 hread
      obtain ⟨hcounted, hbefore⟩ := List.forall_mem_cons.1 hbefore
      rw [← hfirst] at hcounted
      split at htail
      · rename_i next hstep
        exact ih hrest (@Visit.calm_step registry ⟨state, input, rest⟩ next h hinput hcounted hstep)
          htail hbefore
      · cases before <;> cases htail

theorem column_ne_of_first {text : Text} {before after : List Visit} {visit : Visit}
    (htrail : trailOf registry text = before ++ visit :: after)
    (hbefore : ∀ above ∈ before, above.isCounted registry = false)
    (hcounted : visit.isCounted registry = true) :
    visit.column registry ≠ visit.input.line.indent := by
  have hinitial : State.Calm registry {} (InputLine.nextStructural?
      (InputLine.ofLines 1 text.splitLines)) :=
    .still fun frame hframe => absurd hframe List.not_mem_nil
  have hcalm := calm_of_trail (fun _ hinput => InputLine.isRead_of_mem_ofLines hinput) hinitial
    htrail hbefore
  exact Visit.column_ne_of_isCounted hcalm hcounted

end Pass
end Reindent
