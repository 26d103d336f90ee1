import Reindent.Proofs.Pass.Displaced
import Reindent.Proofs.Pass.Lookahead

/-!
# Reindent.Proofs.Pass.DisplacedStep

Lines, step by step, in a document that stands elsewhere.

* `Displaced.opening?`   — a line opens the same frame, if both passes can tell alike what the line
  below it will be (`State.Foresees`).
* `Displaced.structural` — what becomes of a line of the structure.
* `Visit.displaced_step` — a step of both passes.
* `displaced_steps`, `Displaced.unwind` — the rest of a document that is no further to the right.
-/

namespace Reindent
namespace Pass

variable {move : Displacement} {ground : Ground} {registry : Registry} {state' : State}

namespace State

variable {state : State}

/-! ### Frames that a line opens -/

/-- Of the line below, both passes can tell alike what it will be: it is further to the right as
well, or it ends the innermost frame. -/
def Foresees (move : Displacement) (registry : Registry) (state : State) (next : Line) : Prop :=
  move.right = 0 ∨ move.floor < next.indent ∨
    state.stack.head?.any (fun frame => frame.closesAt registry next) = true

namespace Displaced

theorem predict? (h : state.Displaced move ground state') (hwithin : state.Within move)
    {next : Line} (hnext : Foresees move registry state next) :
    state'.predict? registry (move.line next) = state.predict? registry next := by
  have hcloses : (state'.stack.head?.any fun frame => frame.closesAt registry (move.line next)) =
      state.stack.head?.any fun frame => frame.closesAt registry next := by
    rw [h.stack, List.head?_map]
    cases hstack : state.stack with
    | nil => rfl
    | cons frame rest =>
      refine Displacement.closesAt_frame ?_ next
      rcases hwithin.frame hstack with hstill | hinner
      · exact .inl hstill
      · exact .inr (.inl hinner)
  rw [State.predict?, State.predict?, hcloses]
  split
  · rfl
  · rename_i hopen
    have hdeeper : move.right = 0 ∨ move.floor < next.indent := by
      rcases hnext with hstill | hdeeper | hends
      · exact .inl hstill
      · exact .inr hdeeper
      · exact absurd hends hopen
    rw [Displacement.line_eq_displace hdeeper, h.place hwithin next]

section Opening

variable (h : state.Displaced move ground state') (hwithin : state.Within move) {column : Nat}
  (hcolumn : move.right = 0 ∨ move.floor < column) {next : Line}
  (hnext : Foresees move registry state next)
include h hwithin hcolumn hnext

theorem listsUnder (base : Nat) :
    state'.listsUnder registry (column + move.right) base (move.line next) =
      state.listsUnder registry column base next := by
  have hsame : ((move.line next).indent == column + move.right) = (next.indent == column) := by
    rw [Bool.eq_iff_iff, beq_iff_eq, beq_iff_eq, Displacement.line]
    split
    · omega
    · have hindent : (next.displace move.right).indent = next.indent + move.right := rfl
      omega
  rw [State.listsUnder, State.listsUnder, h.predict? hwithin hnext, Displacement.isItem_line, hsame]

theorem continuesInlineArgs :
    state'.continuesInlineArgs registry (column + move.right) (move.line next) =
      state.continuesInlineArgs registry column next := by
  have hleft : (move.line next).indent ≤ column + move.right ↔ next.indent ≤ column := by
    rw [Displacement.line]
    split
    · omega
    · have hindent : (next.displace move.right).indent = next.indent + move.right := rfl
      omega
  rw [State.continuesInlineArgs, State.continuesInlineArgs, h.predict? hwithin hnext,
    Displacement.isItem_line, Displacement.key_line, decide_eq_decide.2 hleft]

omit h hwithin in
theorem floor_lt_of_listsUnder {base : Nat}
    (hlists : state.listsUnder registry column base next = true) :
    move.right = 0 ∨ move.floor < next.indent := by
  rcases hnext with hstill | hdeeper | hends
  · exact .inl hstill
  · exact .inr hdeeper
  · simp only [State.listsUnder, State.predict?, hends, if_true, Bool.and_eq_true, Bool.or_eq_true,
      beq_iff_eq, reduceCtorEq, or_false] at hlists
    rw [hlists.2]
    exact hcolumn

omit h hwithin hcolumn in
theorem floor_lt_of_continuesInlineArgs
    (hcontinues : state.continuesInlineArgs registry column next = true) :
    move.right = 0 ∨ move.floor < next.indent := by
  rcases hnext with hstill | hdeeper | hends
  · exact .inl hstill
  · exact .inr hdeeper
  · simp [State.continuesInlineArgs, State.predict?, hends] at hcontinues

end Opening

section Opening

variable (h : state.Displaced move ground state') (hwithin : state.Within move)
  {ahead : Option Line}
  (hahead : ∀ next, ahead = some next → Foresees move registry state next)
include h hwithin hahead

theorem frameFor? (key : Text) {column : Nat} (hcolumn : move.right = 0 ∨ move.floor < column)
    (base : Nat) :
    state'.frameFor? registry key (column + move.right) base (ahead.map move.line) =
      (state.frameFor? registry key column base ahead).map
        (Frame.displaceBy move.right move.floor move.down) := by
  have hlift : ∀ column, move.right = 0 ∨ move.floor < column →
      (if column ≤ move.floor then column else column + move.right) = column + move.right := by
    intro column hcolumn
    split <;> omega
  rw [State.frameFor?, State.frameFor?]
  cases registry.roleOf? key with
  | some role => simp [Frame.displaceBy, hlift column hcolumn, Scope.displace_empty]
  | none =>
    cases ahead with
    | none => rfl
    | some next =>
      have hnext := hahead next rfl
      simp only [Option.map_some, Option.filter, h.listsUnder hwithin hcolumn hnext]
      split
      · rename_i hlists
        have hright := floor_lt_of_listsUnder hcolumn hnext hlists
        have hindent := Displacement.indent_line hright
        have hmin : (if min column next.indent ≤ move.floor then min column next.indent
            else min column next.indent + move.right) =
              min (column + move.right) (next.indent + move.right) := by
          split <;> omega
        simp only [Option.map_some, hindent, Frame.displaceBy, hmin, Scope.displace_empty,
          List.map_nil]
      · rfl

theorem opening? {line : Line} (hline : move.right = 0 ∨ move.floor < line.indent)
    (placement : Placement) (indent : Nat) :
    state'.opening? registry (line.displace move.right) placement indent (ahead.map move.line) =
      (state.opening? registry line placement indent ahead).map
        (Frame.displaceBy move.right move.floor move.down) := by
  have hleaf : (state'.stack.head?.any fun frame => frame.role.isLeaf) =
      state.stack.head?.any fun frame => frame.role.isLeaf := by
    rw [h.stack, List.head?_map]
    cases state.stack.head? <;> rfl
  have hkey : (line.displace move.right).key = line.key := rfl
  simp only [State.opening?, hleaf, hkey, Line.openKeyColumns?_displace]
  cases hguard : !(state.stack.head?.any fun frame => frame.role.isLeaf) with
  | false => rfl
  | true =>
    cases line.key with
    | none => rfl
    | some key =>
      cases hcolumns : line.openKeyColumns? indent with
      | none => rfl
      | some columns =>
        obtain ⟨column, base⟩ := columns
        have hcolumn : move.right = 0 ∨ move.floor < column := by
          have hle := Line.indent_le_of_openKeyColumns? hcolumns
          omega
        simp only [Option.map_some, Option.bind_eq_bind, Option.bind_some,
          h.frameFor? hwithin hahead key hcolumn]
        cases state.frameFor? registry key column base ahead with
        | none => rfl
        | some frame =>
          have hrole : (frame.displaceBy move.right move.floor move.down).role = frame.role := rfl
          simp only [Option.map_some, Option.bind_some, hrole]
          split
          · cases ahead with
            | none => rfl
            | some next =>
              have hnext := hahead next rfl
              simp only [Option.map_some, Option.filter,
                h.continuesInlineArgs hwithin hcolumn hnext]
              cases hcontinues : state.continuesInlineArgs registry column next with
              | false => rfl
              | true =>
                have hright := floor_lt_of_continuesInlineArgs hnext hcontinues
                simp only [if_true, Displacement.indent_line hright]
                exact congrArg some (Frame.displaceBy_withInlineArgs frame hright).symm
          · rfl

end Opening

/-! ### Lines -/

theorem openFrame (h : state.Displaced move ground state') (hwithin : state.Within move)
    (frame : Frame) :
    DisplacedResult move ground (state.openFrame frame)
      (state'.openFrame (frame.displaceBy move.right move.floor move.down)) := by
  cases hstack : state.stack with
  | nil =>
    have hstack' : state'.stack = [] := by rw [h.stack, hstack, List.map_nil]
    have hframe := @Displacement.frame_of_le _ frame (.inl (hwithin.right hstack))
    simp only [State.openFrame, State.log, Stack.push, hstack, hstack']
    exact .ok { h with stack := by rw [List.map_singleton, hframe] }
  | cons top rest =>
    have hstack' : state'.stack = move.frame top :: rest.map move.frame := by
      rw [h.stack, hstack, List.map_cons]
    have hbase : (move.frame top).baseIndent = top.baseIndent := rfl
    have hbase' : (frame.displaceBy move.right move.floor move.down).baseIndent =
        frame.baseIndent := rfl
    simp only [State.openFrame, State.log, Stack.push, hstack, hstack', hbase, hbase']
    split
    · rename_i horder
      split at horder
      · cases horder
      · rename_i hfits
        cases horder
        have hinner : move.right = 0 ∨ move.base ≤ frame.baseIndent := by
          have htop := hwithin.frame hstack
          omega
        rw [if_neg hfits]
        exact .ok { h with stack := by rw [List.map_cons, List.map_cons,
          Displacement.frame_of_le hinner] }
    · rename_i fault horder
      split at horder
      · rename_i hfits
        rw [if_pos hfits]
        cases horder
        exact .error rfl
      · cases horder

theorem indent_placement {placement : Placement}
    (h : move.right = 0 ∨ placement ≠ .unchanged) (line : Line) :
    placement.indent (line.displace move.right) = placement.indent line := by
  cases placement with
  | unchanged =>
    have hstill := h.resolve_right fun hmoves => hmoves rfl
    rw [hstill, Line.displace_zero]
  | entry _ => rfl
  | member _ => rfl
  | carried _ => rfl

section Settle

variable (h : state.Displaced move ground state') (hwithin : state.Within move) {input : InputLine}
  (hread : input.line.IsRead) (hplaced : move.right = 0 ∨ state.place input.line ≠ .unchanged)
include h hwithin hread hplaced

theorem settled : (state.settled input).Displaced move ground
    (state'.settled (inputElsewhere move input)) := by
  have hline : (inputElsewhere move input).line = input.line.displace move.right := rfl
  have hscalar : (input.line.displace move.right).blockScalar = input.line.blockScalar := rfl
  have hindent : (input.line.displace move.right).indent = input.line.indent + move.right := rfl
  have hwritten := (h.record hwithin input.line (state.place input.line)).writeAt hread
    ((state.place input.line).indent input.line)
  simp only [State.settled, hline, h.place hwithin, indent_placement hplaced, hscalar, hindent]
  refine { hwritten with body := ?_ }
  split
  · simp only [Option.map_some, bodyElsewhere, Option.some.injEq, ScalarBody.mk.injEq, true_and]
    omega
  · rfl

theorem settle (hline : move.right = 0 ∨ move.floor < input.line.indent) {ahead : Option Line}
    (hahead : ∀ next, ahead = some next → Foresees move registry state next) :
    DisplacedResult move ground (state.settle registry input ahead)
      (state'.settle registry (inputElsewhere move input) (ahead.map move.line)) := by
  have hrecorded := h.record hwithin input.line (state.place input.line)
  have hhead := head?_record state input.line
  have hwithin' : (state.record input.line (state.place input.line)).Within move := by
    rcases hwithin with hstill | ⟨frame, hframe, hbase⟩
    · exact .inl hstill
    · rw [hframe, Option.map_some] at hhead
      exact .inr ⟨_, hhead, hbase⟩
  have hahead' : ∀ next, ahead = some next → Foresees move registry
      (state.record input.line (state.place input.line)) next := by
    intro next hnext
    rcases hahead next hnext with hstill | hdeeper | hends
    · exact .inl hstill
    · exact .inr (.inl hdeeper)
    · refine .inr (.inr ?_)
      rw [hhead, Option.any_map]
      exact hends
  have hplace : (inputElsewhere move input).line = input.line.displace move.right := rfl
  have hsettled := h.settled hwithin hread hplaced
  rw [settle_eq, settle_eq, hplace, h.place hwithin, indent_placement hplaced,
    hrecorded.opening? hwithin' hahead' hline]
  cases (state.record input.line (state.place input.line)).opening? registry input.line
      (state.place input.line) ((state.place input.line).indent input.line) ahead with
  | none => exact .ok hsettled
  | some frame =>
    refine hsettled.openFrame ?_ frame
    rcases hwithin' with hstill | ⟨top, htop, hbase⟩
    · exact .inl hstill
    · exact .inr ⟨top, by rw [stack_settled, htop], hbase⟩

end Settle

theorem structural (h : state.Displaced move ground state') (hbounded : state.Bounded move)
    {input : InputLine} (hread : input.line.IsRead)
    (hline : move.right = 0 ∨ move.floor < input.line.indent)
    (hwithin : (state.closeFor registry input.line).Within move) {ahead : Option Line}
    (hplaced : (∀ key frame,
        (state.closeFor registry input.line).verdict registry input.line ahead ≠
          .stranded key frame) →
        move.right = 0 ∨ (state.closeFor registry input.line).place input.line ≠ .unchanged)
    (hahead : ∀ next, ahead = some next →
      Foresees move registry (state.closeFor registry input.line) next) :
    DisplacedResult move ground (state.structural registry input ahead)
      (state'.structural registry (inputElsewhere move input) (ahead.map move.line)) := by
  have hclosed := @closeFor _ _ registry _ _ h hbounded input.line
  rw [Displacement.line_eq_displace hline] at hclosed
  have helsewhere : (inputElsewhere move input).line = input.line.displace move.right := rfl
  have hverdict := @verdict _ _ registry _ _ hclosed _ hline ahead
  simp only [State.structural, helsewhere, hverdict]
  cases hjudged : (state.closeFor registry input.line).verdict registry input.line ahead with
  | stays =>
    rw [hjudged] at hplaced
    exact hclosed.settle hwithin hread (hplaced fun _ _ => Verdict.noConfusion) hline hahead
  | alreadySet key frame =>
    rw [hjudged] at hplaced
    exact (hclosed.log _ _).settle hwithin hread (hplaced fun _ _ => Verdict.noConfusion) hline
      hahead
  | stranded key frame => exact .ok ((hclosed.log _ _).liftOut input key)

end Displaced

end State

/-! ### Steps -/

namespace Visit

variable {visit : Visit}

/-- What is needed of a line of the structure so that both passes treat it alike. -/
structure Moves (registry : Registry) (move : Displacement) (visit : Visit) : Prop where
  deeper : move.right = 0 ∨ move.floor < visit.input.line.indent
  bounded : visit.state.Bounded move
  within : (visit.ready registry).Within move
  placed : visit.isPlaced registry = true →
    move.right = 0 ∨ visit.placement registry ≠ .unchanged
  foresees : ∀ next, InputLine.nextStructural? visit.rest = some next →
    State.Foresees move registry (visit.ready registry) next

theorem moves_of_right (hstill : move.right = 0) (visit : Visit) : visit.Moves registry move :=
  ⟨.inl hstill, fun _ _ => .inl hstill, .inl hstill, fun _ => .inl hstill, fun _ _ => .inl hstill⟩

/-- The line is one of those that are further to the right: a line of the structure, or text of a
block scalar. -/
def isShifted (visit : Visit) : Bool :=
  visit.isStructural || visit.isText && visit.input.line.category != .blank

/-- The line where the document stands elsewhere. -/
def elsewhere (move : Displacement) (visit : Visit) : InputLine :=
  if visit.isShifted then State.inputElsewhere move visit.input
  else { visit.input with number := visit.input.number + move.down }

theorem isText_iff {body : ScalarBody} (hbody : visit.state.body = some body) :
    visit.isText = true ↔
      visit.input.line.category = .blank ∨ body.opener < visit.input.line.indent := by
  simp [isText, hbody, State.continuesBody]

/-- Whether a line is text of a block scalar does not hang on where the document stands. -/
theorem isText_elsewhere (h : visit.state.Displaced move ground state') (rest : List InputLine) :
    isText ⟨state', visit.elsewhere move, rest⟩ = visit.isText := by
  cases hbody : visit.state.body with
  | none => simp [isText, h.body, hbody]
  | some body =>
    have hbody' : (⟨state', visit.elsewhere move, rest⟩ : Visit).state.body =
        some (bodyElsewhere move body) := by
      rw [h.body, hbody, Option.map_some]
    have hopener : (bodyElsewhere move body).opener = body.opener + move.right := rfl
    rw [Bool.eq_iff_iff, isText_iff hbody', isText_iff hbody, hopener, elsewhere]
    by_cases hshifted : visit.isShifted = true
    · have hindent : (State.inputElsewhere move visit.input).line.indent =
          visit.input.line.indent + move.right := rfl
      rw [if_pos hshifted, hindent, Nat.add_lt_add_iff_right]
      rfl
    · rw [if_neg hshifted]
      have htext := isText_iff hbody
      simp only [isShifted, Bool.or_eq_true, Bool.and_eq_true, bne_iff_ne, htext, not_or,
        not_and, not_not] at hshifted
      change visit.input.line.category = .blank ∨
        body.opener + move.right < visit.input.line.indent ↔ _
      refine or_congr_right' fun hblank => ⟨fun hdeeper => by omega, fun hdeeper => ?_⟩
      exact absurd (hshifted.2 (.inr hdeeper)) hblank

/-- A step of both passes. -/
theorem displaced_step (h : visit.state.Displaced move ground state')
    (hread : visit.input.line.IsRead)
    (hmoves : visit.isStructural = true → visit.Moves registry move) {rest : List InputLine}
    (hrest : InputLine.nextStructural? rest =
      (InputLine.nextStructural? visit.rest).map move.line) :
    State.DisplacedResult move ground (visit.state.step registry visit.input visit.rest)
      (state'.step registry (visit.elsewhere move) rest) := by
  have htext' := isText_elsewhere h rest
  cases htext : visit.isText with
  | true =>
    obtain ⟨body, hbody, hcontinues⟩ : ∃ body, visit.state.body = some body ∧
        State.continuesBody visit.input.line body = true := Option.any_eq_true _ _ |>.1 htext
    have hbody' : state'.body = some (bodyElsewhere move body) := by
      rw [h.body, hbody, Option.map_some]
    rw [htext, isText, hbody'] at htext'
    rw [State.step_of_text registry visit.input visit.rest hbody hcontinues,
      State.step_of_text registry (visit.elsewhere move) rest hbody' htext']
    refine .ok (h.writeBody hread ?_)
    split
    · rename_i hblank
      simp [elsewhere, isShifted, isStructural, htext, hblank]
    · rename_i hblank
      simp [elsewhere, isShifted, htext, hblank]
  | false =>
    have houtside : State.Displaced move ground { visit.state with body := none }
        { state' with body := none } := { h with body := rfl }
    rw [htext] at htext'
    rw [step_of_not_isText htext, step_of_not_isText htext']
    cases hline : visit.input.line.isStructural with
    | true =>
      have hstructural := isStructural_iff.2 ⟨htext, hline⟩
      obtain ⟨hdeeper, hbounded, hwithin, hplaced, hforesees⟩ := hmoves hstructural
      have helsewhere : visit.elsewhere move = State.inputElsewhere move visit.input := by
        simp [elsewhere, isShifted, hstructural]
      have hline' : (State.inputElsewhere move visit.input).line.isStructural = true := hline
      simp only [helsewhere, hline', if_true, hrest]
      refine houtside.structural hbounded hread hdeeper hwithin (fun hstays => ?_) hforesees
      refine hplaced (isPlaced_iff.2 ⟨hstructural, ?_⟩)
      rw [isLifted]
      split
      · rename_i key frame hverdict
        exact absurd hverdict (hstays key frame)
      · rfl
      · rfl
    | false =>
      have helsewhere : visit.elsewhere move =
          { visit.input with number := visit.input.number + move.down } := by
        simp [elsewhere, isShifted, isStructural, htext, hline]
      simp only [helsewhere, hline, Bool.false_eq_true, if_false]
      exact .ok (houtside.passThrough hread)

end Visit

/-! ### The rest of a document -/

theorem displaced_steps (hstill : move.right = 0) {inputs : List InputLine}
    (hread : ∀ input ∈ inputs, input.line.IsRead) {state : State}
    (h : state.Displaced move ground state') :
    State.DisplacedResult move ground (steps registry state inputs)
      (steps registry state' (inputs.map (State.inputElsewhere move))) := by
  induction inputs generalizing state state' with
  | nil => exact .ok h
  | cons input rest ih =>
    have hline : Line.displace move.right = id := by
      funext line
      rw [hstill, Line.displace_zero, id]
    have helsewhere : Visit.elsewhere move ⟨state, input, rest⟩ =
        State.inputElsewhere move input := by
      rw [Visit.elsewhere, State.inputElsewhere, hline]
      exact ite_self _
    have hnext : InputLine.nextStructural? (rest.map (State.inputElsewhere move)) =
        (InputLine.nextStructural? rest).map move.line := by
      have hsame : move.line = Line.displace move.right :=
        funext fun line => Displacement.line_eq_displace (.inl hstill)
      rw [InputLine.nextStructural?, InputLine.nextStructural?, hsame, List.find?_map,
        Option.map_map, Option.map_map]
      rfl
    have hstep := @Visit.displaced_step _ _ registry _ ⟨state, input, rest⟩ h
      (hread input List.mem_cons_self) (fun _ => Visit.moves_of_right hstill _) _ hnext
    rw [helsewhere] at hstep
    rw [List.map_cons, steps, steps]
    generalize state.step registry input rest = result at hstep ⊢
    generalize state'.step registry (State.inputElsewhere move input)
      (rest.map (State.inputElsewhere move)) = result' at hstep ⊢
    cases hstep with
    | ok hdisplaced =>
      exact ih (fun other hother => hread other (List.mem_cons_of_mem _ hother)) hdisplaced
    | error hfault => exact .error hfault

theorem State.Displaced.unwind {state : State} (h : state.Displaced move ground state') :
    (unwind state).Displaced move ground (Pass.unwind state') :=
  State.Displaced.tandem.unwind h

end Pass
end Reindent
