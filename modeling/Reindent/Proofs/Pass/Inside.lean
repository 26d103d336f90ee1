import Reindent.Proofs.Pass.DisplacedStep
import Reindent.Proofs.Pass.Marker
import Reindent.Proofs.Pass.Outside

/-!
# Reindent.Proofs.Pass.Inside

Two passes inside a frame, over lines that are further to the right in the second document.

* `State.KeepsOpen`       — the frame is open.
* `Visit.keepsOpen_step`  — it stays open until a line ends it.
* `Visit.moves_of_keepsOpen` — both passes treat a line inside the frame alike.
* `displaced_below`   — they go on alike below the line that ends the frame.
-/

namespace Reindent

/-! ### The frame while it is open -/

namespace Frame

variable {frame other : Frame} {registry : Registry}

/-- `other` is the frame, whatever its children are. -/
structure IsNow (frame other : Frame) : Prop where
  role : other.role = frame.role
  inlineArgs : other.inlineArgs = frame.inlineArgs
  inputIndent : other.inputIndent = frame.inputIndent
  baseIndent : other.baseIndent = frame.baseIndent

theorem IsNow.closesAt (h : frame.IsNow other) (line : Line) :
    other.closesAt registry line = frame.closesAt registry line := by
  simp only [Frame.closesAt, h.role, h.inlineArgs, h.inputIndent]

theorem stable_isNow (frame : Frame) : Stable frame.IsNow :=
  ⟨fun _ _ h => ⟨h.role, h.inlineArgs, h.inputIndent, h.baseIndent⟩,
    fun _ _ h => ⟨h.role, h.inlineArgs, h.inputIndent, h.baseIndent⟩⟩

/-- The lines inside the frame are `n` columns further to the right. -/
def shiftInside (frame : Frame) (n : Nat) : Displacement :=
  { right := n, floor := frame.inputIndent, base := frame.baseIndent }

theorem shiftInside_frame (n : Nat) (hscope : frame.scope = {})
    (hrelocations : frame.relocations = []) : (frame.shiftInside n).frame frame = frame := by
  obtain ⟨role, key, inlineArgs, inputIndent, baseIndent, scope, relocations⟩ := frame
  cases hscope
  cases hrelocations
  simp [shiftInside, Displacement.frame, displaceBy, Scope.displace]

theorem indent_le_of_closesAt {line : Line} (h : frame.closesAt registry line = true) :
    line.indent ≤ frame.inputIndent := by
  by_contra hright
  have hne : line.indent ≠ frame.inputIndent := by omega
  simp only [Frame.closesAt, if_pos hne, decide_eq_true_eq] at h
  omega

end Frame

namespace Pass

variable {registry : Registry}

namespace State

/-- The frames are in order, and `frame` is one of them. -/
structure KeepsOpen (frame : Frame) (depth : Nat) (state : State) : Prop where
  inOrder : state.InOrder
  around : state.stack.Around depth frame.IsNow

theorem InOrder.not_closesAt_of_mem {state : State} (h : state.InOrder) {line : Line}
    {frame : Frame} (hframe : frame ∈ (state.closeFor registry line).stack) :
    frame.closesAt registry line = false := by
  have hclosed : (state.closeFor registry line).InOrder := h.closeUpTo registry line _
  cases hstack : (state.closeFor registry line).stack with
  | nil =>
    rw [hstack] at hframe
    cases hframe
  | cons top rest =>
    have htop : top.closesAt registry line = false :=
      head_closeFor_not_closesAt (by rw [hstack, List.head?_cons])
    have hinside := hclosed.inside
    rw [hstack] at hframe hinside
    rcases List.mem_cons.1 hframe with rfl | houter
    · exact htop
    · refine ((List.pairwise_cons.1 hinside).1 frame houter).not_closesAt ?_ htop
      exact (hclosed.tidy frame (by rw [hstack]; exact List.mem_cons_of_mem _ houter)).inline

namespace KeepsOpen

variable {frame : Frame} {depth : Nat} {state : State}

theorem exists_split (h : state.KeepsOpen frame depth) :
    ∃ inner now outer, state.stack = inner ++ now :: outer ∧ outer.length + 1 = depth ∧
      frame.IsNow now ∧ (∀ other ∈ inner, other.Inside now) ∧
        ∀ other ∈ outer, now.Inside other := by
  obtain ⟨inner, now, outer, hstack, hlength, hnow⟩ := h.around
  have hinside := h.inOrder.inside
  rw [hstack, List.pairwise_append, List.pairwise_cons] at hinside
  exact ⟨inner, now, outer, hstack, hlength, hnow,
    fun other hother => hinside.2.2 other hother now List.mem_cons_self, hinside.2.1.1⟩

theorem bounded (h : state.KeepsOpen frame depth) (n : Nat) :
    state.Bounded (frame.shiftInside n) := by
  obtain ⟨inner, now, outer, hstack, _, hnow, hinner, houter⟩ := h.exists_split
  intro other hother
  rw [hstack, List.mem_append, List.mem_cons] at hother
  right
  rcases hother with hin | rfl | hout
  · left
    rw [Frame.shiftInside, ← hnow.baseIndent]
    exact Nat.le_of_lt (hinner other hin).base
  · exact .inl (Nat.le_of_eq hnow.baseIndent.symm)
  · right
    rw [Frame.shiftInside, ← hnow.inputIndent]
    exact (houter other hout).input

theorem within (h : state.KeepsOpen frame depth) (n : Nat) :
    state.Within (frame.shiftInside n) := by
  obtain ⟨inner, now, outer, hstack, _, hnow, hinner, _⟩ := h.exists_split
  right
  cases inner with
  | nil => exact ⟨now, by rw [hstack]; rfl, Nat.le_of_eq hnow.baseIndent.symm⟩
  | cons top inner =>
    refine ⟨top, by rw [hstack]; rfl, ?_⟩
    rw [Frame.shiftInside, ← hnow.baseIndent]
    exact Nat.le_of_lt (hinner top List.mem_cons_self).base

/-- A line that ends the frame ends the frames inside it. -/
theorem closesAt_of_inside (h : state.KeepsOpen frame depth) {now other : Frame}
    (hnow : frame.IsNow now) (hmem : now ∈ state.stack) (hother : other.Inside now) {line : Line}
    (hcloses : frame.closesAt registry line = true) : other.closesAt registry line = true := by
  by_contra hopen
  rw [Bool.not_eq_true] at hopen
  have hstays := hother.not_closesAt (h.inOrder.tidy now hmem).inline hopen
  rw [hnow.closesAt, hcloses] at hstays
  cases hstays

theorem head_closesAt (h : state.KeepsOpen frame depth) {line : Line}
    (hcloses : frame.closesAt registry line = true) :
    state.stack.head?.any (fun frame => frame.closesAt registry line) = true := by
  obtain ⟨inner, now, outer, hstack, _, hnow, hinner, _⟩ := h.exists_split
  cases inner with
  | nil =>
    rw [hstack, List.nil_append, List.head?_cons, Option.any_some, hnow.closesAt]
    exact hcloses
  | cons top inner =>
    rw [hstack, List.cons_append, List.head?_cons, Option.any_some]
    exact h.closesAt_of_inside hnow (by simp [hstack]) (hinner top List.mem_cons_self) hcloses

theorem baseIndent_lt_of_closesAt (h : state.KeepsOpen frame depth) {line : Line}
    (hcloses : frame.closesAt registry line = true) :
    ∀ other ∈ (state.closeFor registry line).stack, other.baseIndent < frame.baseIndent := by
  intro other hother
  obtain ⟨inner, now, outer, hstack, _, hnow, hinner, houter⟩ := h.exists_split
  have hopen := h.inOrder.not_closesAt_of_mem hother
  have hcleared : other.cleared ∈ state.stack.map Frame.cleared := by
    refine (List.dropWhile_suffix fun frame => frame.closesAt registry line).subset ?_
    rw [← map_cleared_closeFor]
    exact List.mem_map_of_mem hother
  obtain ⟨before, hbefore, hsame⟩ := List.mem_map.1 hcleared
  have hbase : before.cleared.baseIndent = other.cleared.baseIndent := by rw [hsame]
  have hends : before.cleared.closesAt registry line = other.cleared.closesAt registry line := by
    rw [hsame]
  rw [Frame.closesAt_cleared, Frame.closesAt_cleared, hopen] at hends
  have hmem : now ∈ state.stack := by simp [hstack]
  rw [hstack, List.mem_append, List.mem_cons] at hbefore
  rcases hbefore with hin | rfl | hout
  · rw [h.closesAt_of_inside hnow hmem (hinner before hin) hcloses] at hends
    cases hends
  · rw [hnow.closesAt, hcloses] at hends
    cases hends
  · have hlt := (houter before hout).base
    rw [hnow.baseIndent, show before.baseIndent = other.baseIndent from hbase] at hlt
    exact hlt

theorem depth_le (h : state.KeepsOpen frame depth) {line : Line}
    (hopen : frame.closesAt registry line = false) :
    depth ≤ (state.closeFor registry line).stack.length := by
  obtain ⟨inner, now, outer, hstack, hlength, hnow, _, _⟩ := h.exists_split
  have hstays : now.cleared.closesAt registry line = false := by
    rw [Frame.closesAt_cleared, hnow.closesAt]
    exact hopen
  have hcleared := congrArg List.length (map_cleared_closeFor state registry line)
  rw [hstack, List.map_append, List.map_cons, List.dropWhile_append, List.length_map] at hcleared
  rw [hcleared, ← hlength]
  split
  · rw [List.dropWhile_cons_of_neg (by simp [hstays]), List.length_cons, List.length_map]
  · rw [List.length_append, List.length_cons, List.length_map]
    omega

theorem congr (h : state.KeepsOpen frame depth) {next : State} (hstack : next.stack = state.stack)
    (hroot : next.root = state.root) : next.KeepsOpen frame depth := by
  refine ⟨h.inOrder.congr hstack hroot, ?_⟩
  rw [hstack]
  exact h.around

theorem closeFor (h : state.KeepsOpen frame depth) {line : Line}
    (hopen : frame.closesAt registry line = false) :
    (state.closeFor registry line).KeepsOpen frame depth :=
  ⟨h.inOrder.closeUpTo registry line _,
    around_closeFor (Frame.stable_isNow frame) h.around (h.depth_le hopen)⟩

end KeepsOpen
end State

namespace Visit

variable {frame : Frame} {depth : Nat} {visit : Visit}

theorem keepsOpen_ready (h : visit.state.KeepsOpen frame depth)
    (hopen : frame.closesAt registry visit.input.line = false) :
    (visit.ready registry).KeepsOpen frame depth := by
  have houtside : State.KeepsOpen frame depth { visit.state with body := none } := h.congr rfl rfl
  exact houtside.closeFor hopen

theorem keepsOpen_step (hconfined : registry.Confined) (hread : visit.input.line.IsRead)
    (h : visit.state.KeepsOpen frame depth)
    (hopen : visit.isStructural = true → frame.closesAt registry visit.input.line = false)
    {next : State} (hstep : visit.state.step registry visit.input visit.rest = .ok next) :
    next.KeepsOpen frame depth := by
  refine ⟨inOrder_step hconfined hread h.inOrder hstep,
    around_step (Frame.stable_isNow frame) h.around ?_ ?_ hstep⟩
  · intro hstructural
    obtain ⟨inner, now, outer, hstack, hlength, _⟩ := (keepsOpen_ready h (hopen hstructural)).around
    rw [Visit.depth, hstack, List.length_append, List.length_cons]
    omega
  · intro _ _ other _ hnow
    exact ⟨hnow.role, hnow.inlineArgs, hnow.inputIndent, hnow.baseIndent⟩

/-- Both passes treat a line inside the frame alike. -/
theorem moves_of_keepsOpen (h : visit.state.KeepsOpen frame depth) (n : Nat)
    (hdeep : frame.inputIndent < visit.input.line.indent)
    (hplaced : visit.isPlaced registry = true → visit.placement registry ≠ .unchanged)
    (hnext : ∀ next, InputLine.nextStructural? visit.rest = some next →
      frame.inputIndent < next.indent ∨ frame.closesAt registry next = true) :
    visit.Moves registry (frame.shiftInside n) := by
  have hopen : frame.closesAt registry visit.input.line = false := by
    by_contra hcloses
    rw [Bool.not_eq_false] at hcloses
    have hle := Frame.indent_le_of_closesAt hcloses
    omega
  have hready := keepsOpen_ready h hopen
  refine ⟨.inr hdeep, h.bounded n, hready.within n, fun hplace => .inr (hplaced hplace), ?_⟩
  intro next hfound
  rcases hnext next hfound with hdeeper | hcloses
  · exact .inr (.inl hdeeper)
  · exact .inr (.inr (hready.head_closesAt hcloses))

end Visit

/-! ### The line that ends the frame -/

namespace State

theorem closeFor_closeFor (state : State) (line : Line) :
    (state.closeFor registry line).closeFor registry line = state.closeFor registry line := by
  cases hstack : (state.closeFor registry line).stack with
  | nil => exact closeFor_nil hstack line
  | cons top rest =>
    have htop : (state.closeFor registry line).stack.head? = some top := by
      rw [hstack, List.head?_cons]
    exact closeFor_of_not_closesAt htop (head_closeFor_not_closesAt htop)

end State

namespace Visit

variable {visit : Visit}

theorem body_ready (visit : Visit) : (visit.ready registry).body = none :=
  State.body_closeFor _ _

theorem step_ready (hstructural : visit.isStructural = true) :
    visit.state.step registry visit.input visit.rest =
      (visit.ready registry).step registry visit.input visit.rest := by
  obtain ⟨htext, hline⟩ := isStructural_iff.1 hstructural
  have htext' : isText ⟨visit.ready registry, visit.input, visit.rest⟩ = false := by
    rw [isText, body_ready]
    rfl
  have hready : { visit.ready registry with body := none } = visit.ready registry := by
    have hbody := @body_ready registry visit
    generalize visit.ready registry = ready at hbody ⊢
    cases ready
    cases hbody
    rfl
  have hclosed : (visit.ready registry).closeFor registry visit.input.line =
      visit.ready registry := State.closeFor_closeFor _ _
  rw [step_of_not_isText htext, step_of_not_isText htext', hline, if_pos rfl, if_pos rfl, hready,
    State.structural, State.structural, hclosed]
  rfl

end Visit

/-! ### The lines below the frame -/

/-- The lines below the body of the frame, if there are any, start with one that ends the frame. The
body leaves the text of the given opener open. -/
def EndsAt (registry : Registry) (frame : Frame) (opener : Option Nat) (below : List RawLine) :
    Prop :=
  ∀ raw ∈ below.head?, raw.isOutside opener = true ∧
    frame.closesAt registry (Line.ofText raw.body) = true

section Below

variable {frame : Frame} {depth n : Nat} {opener : Option Nat} {below : List RawLine}

theorem EndsAt.closesAt (h : EndsAt registry frame opener below) {next : Line}
    (hnext : (below.map fun raw => Line.ofText raw.body).find? Line.isStructural = some next) :
    frame.closesAt registry next = true := by
  cases below with
  | nil => cases hnext
  | cons raw rest =>
    obtain ⟨hout, hcloses⟩ := h raw rfl
    simp only [RawLine.isOutside, Bool.and_eq_true] at hout
    rw [List.map_cons, List.find?_cons_of_pos hout.2] at hnext
    cases hnext
    exact hcloses

theorem displaced_ready {visit : Visit} {state' : State}
    (hkeeps : visit.state.KeepsOpen frame depth)
    (h : visit.state.Displaced (frame.shiftInside n) .level state')
    (hcloses : frame.closesAt registry visit.input.line = true) :
    (visit.ready registry).Displaced {} .level
      (Visit.ready registry ⟨state', visit.input, visit.rest⟩) := by
  have houtside : State.Displaced (frame.shiftInside n) .level { visit.state with body := none }
      { state' with body := none } := { h with body := rfl }
  have hkeeps' : State.KeepsOpen frame depth { visit.state with body := none } :=
    hkeeps.congr rfl rfl
  have hclosed := @State.Displaced.closeFor _ _ registry _ _ houtside (hkeeps'.bounded n)
    visit.input.line
  rw [Displacement.line_of_le (Frame.indent_le_of_closesAt hcloses)] at hclosed
  have hless := hkeeps'.baseIndent_lt_of_closesAt hcloses
  refine hclosed.congr_move rfl (fun other hother => ?_) visit.body_ready rfl
  rw [Displacement.frame_eq_self rfl (.inl rfl),
    Displacement.frame_eq_self rfl (.inr (hless other hother))]

theorem not_isText_of_displaced {move : Displacement} {ground : Ground} {visit : Visit}
    {state' : State} (h : visit.state.Displaced move ground state') (htext : visit.isText = false) :
    Visit.isText ⟨state', visit.input, visit.rest⟩ = false := by
  cases hbody : visit.state.body with
  | none => simp [Visit.isText, h.body, hbody]
  | some body =>
    have hbody' : (⟨state', visit.input, visit.rest⟩ : Visit).state.body =
        some (bodyElsewhere move body) := by
      rw [h.body, hbody, Option.map_some]
    have hopener : (bodyElsewhere move body).opener = body.opener + move.right := rfl
    rw [← Bool.not_eq_true, Visit.isText_iff hbody] at htext
    rw [← Bool.not_eq_true, Visit.isText_iff hbody', hopener]
    change ¬(visit.input.line.category = .blank ∨
      body.opener + move.right < visit.input.line.indent)
    rintro (hblank | hdeeper)
    · exact htext (.inl hblank)
    · exact htext (.inr (Nat.lt_of_le_of_lt (Nat.le_add_right _ _) hdeeper))

theorem steps_ready {state : State} {input : InputLine} {rest : List InputLine}
    (hstructural : Visit.isStructural ⟨state, input, rest⟩ = true) :
    steps registry state (input :: rest) =
      steps registry (Visit.ready registry ⟨state, input, rest⟩) (input :: rest) := by
  have hstep := @Visit.step_ready registry _ hstructural
  simp only at hstep
  rw [steps, steps, hstep]

/-- The lines below the body: the one that ends the frame sees the same frames around it. -/
theorem displaced_below {first : Nat} {state state' : State}
    (hopener : state.body.map ScalarBody.opener = opener)
    (hends : EndsAt registry frame opener below) (hkeeps : state.KeepsOpen frame depth)
    (h : state.Displaced (frame.shiftInside n) .level state') :
    ∃ move : Displacement, move.down = 0 ∧ State.DisplacedResult move .level
      (steps registry state (InputLine.ofLines first below))
      (steps registry state' (InputLine.ofLines first below)) := by
  cases below with
  | nil => exact ⟨frame.shiftInside n, rfl, .ok h⟩
  | cons raw rest =>
    obtain ⟨hout, hcloses⟩ := hends raw rfl
    let visit : Visit :=
      ⟨state, ⟨first, Line.ofText raw.body, raw.ending⟩, InputLine.ofLines (first + 1) rest⟩
    have hstructural : visit.isStructural = true := by
      rw [@Visit.isStructural_eq raw visit rfl]
      exact hopener ▸ hout
    obtain ⟨htext, hline⟩ := Visit.isStructural_iff.1 hstructural
    have hstructural' : Visit.isStructural ⟨state', visit.input, visit.rest⟩ = true :=
      Visit.isStructural_iff.2 ⟨not_isText_of_displaced h htext, hline⟩
    have hready := @displaced_ready _ _ _ _ visit _ hkeeps h hcloses
    have hsame : (InputLine.ofLines first (raw :: rest)).map (State.inputElsewhere {}) =
        InputLine.ofLines first (raw :: rest) := List.map_id' _
    have hsteps := @displaced_steps {} .level registry _ rfl
      (InputLine.ofLines first (raw :: rest))
      (fun _ hinput => InputLine.isRead_of_mem_ofLines hinput) _ hready
    rw [hsame] at hsteps
    refine ⟨{}, rfl, ?_⟩
    rw [InputLine.ofLines] at hsteps ⊢
    rw [steps_ready hstructural, steps_ready hstructural']
    exact hsteps

end Below
end Pass
end Reindent
