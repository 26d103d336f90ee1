import Reindent.Proofs.Pass.Inside
import Reindent.Proofs.Pass.Rearrangement
import Reindent.Proofs.Text.Behind

/-!
# Reindent.Proofs.Pass.OverIndent

How far the body of a frame is indented has no part in where its lines go.

* `overIndent`         — the body, further to the right.
* `displaced_body`     — both passes over the body, and over the lines below it.
* `displaced_opened`   — the frame opens in both documents alike.
* `Visit.OpensBody`    — a line that opens a frame by the role of its key, and the frame's body.
* `run_overIndent`     — the two documents have the same output.
-/

namespace Reindent

namespace RawLine

/-- The line takes part in the structure, or it is text of the block scalar of the given opener that
is not blank. -/
def isShifted (opener : Option Nat) (raw : RawLine) : Bool :=
  if opener.any raw.isTextOf then (Line.ofText raw.body).category != .blank
  else (Line.ofText raw.body).isStructural

theorem isBehind_of_isShifted {raw : RawLine} {opener : Option Nat}
    (h : raw.isShifted opener = true) (n : Nat) : raw.IsBehind (raw.displace n) := by
  refine ⟨n, rfl, fun hempty => ?_⟩
  rw [isShifted, hempty] at h
  split at h <;> cases h

end RawLine

/-- The lines, with those of the structure and the text of block scalars `n` columns further to the
right. Blank lines, and comments outside block scalars, stay. -/
def overIndent (n : Nat) : Option Nat → List RawLine → List RawLine
  | _, [] => []
  | opener, raw :: rest =>
    (if raw.isShifted opener then raw.displace n else raw) ::
      overIndent n (openAfter opener raw) rest

theorem forall₂_overIndent (n : Nat) (opener : Option Nat) (lines : List RawLine) :
    List.Forall₂ RawLine.IsBehind lines (overIndent n opener lines) := by
  induction lines generalizing opener with
  | nil => exact .nil
  | cons raw rest ih =>
    refine .cons ?_ (ih _)
    split
    · rename_i hshifted
      exact RawLine.isBehind_of_isShifted hshifted n
    · exact .refl raw

theorem splitLines_overIndent {text : Text} {above body below : List RawLine} {opener : RawLine}
    (hlines : text.splitLines = above ++ opener :: (body ++ below)) (n : Nat) :
    Text.splitLines
        ((above ++ opener :: (overIndent n none body ++ below)).flatMap RawLine.text) =
      above ++ opener :: (overIndent n none body ++ below) := by
  have hsame : ∀ lines : List RawLine, List.Forall₂ RawLine.IsBehind lines lines :=
    fun lines => List.forall₂_same.2 fun raw _ => .refl raw
  have hbehind : List.Forall₂ RawLine.IsBehind text.splitLines
      (above ++ opener :: (overIndent n none body ++ below)) := by
    rw [hlines]
    exact List.rel_append (hsame above)
      (.cons (.refl opener) (List.rel_append (forall₂_overIndent n none body) (hsame below)))
  exact Text.splitLines_of_isBehind hbehind

/-! ### The lines of the structure -/

section Deep

variable {floor : Nat} {opener : Option Nat} {raw : RawLine} {body : List RawLine}

theorem deep_of_isStructural (hopener : ∀ o ∈ opener, floor < o)
    (hdeep : raw.isOutside opener = true → floor < (Line.ofText raw.body).indent)
    (hstructural : (Line.ofText raw.body).isStructural = true) :
    floor < (Line.ofText raw.body).indent := by
  cases htext : opener.any raw.isTextOf with
  | false => exact hdeep (by simp [RawLine.isOutside, htext, hstructural])
  | true =>
    obtain ⟨o, rfl, hdeeper⟩ := Option.any_eq_true _ _ |>.1 htext
    simp only [RawLine.isTextOf, Bool.or_eq_true, beq_iff_eq, decide_eq_true_eq] at hdeeper
    rcases hdeeper with hblank | hdeeper
    · simp [Line.isStructural, Line.isTrivia, hblank] at hstructural
    · exact Nat.lt_trans (hopener o rfl) hdeeper

theorem deep_openAfter (hopener : ∀ o ∈ opener, floor < o)
    (hdeep : raw.isOutside opener = true → floor < (Line.ofText raw.body).indent) :
    ∀ o ∈ openAfter opener raw, floor < o := by
  intro o ho
  rw [openAfter] at ho
  split at ho
  · exact hopener o ho
  · rename_i htext
    simp only [RawLine.opens?] at ho
    split at ho
    · rename_i hopens
      cases ho
      simp only [Bool.and_eq_true] at hopens
      exact hdeep (by simp [RawLine.isOutside, htext, hopens.1])
    · cases ho

theorem isStructural_over (n : Nat) :
    (Line.ofText (if raw.isShifted opener then raw.displace n else raw).body).isStructural =
      (Line.ofText raw.body).isStructural := by
  split
  · rw [RawLine.displace, Line.ofText_spaces_append]
    rfl
  · rfl

theorem find?_overIndent (n : Nat) (opener : Option Nat) (body : List RawLine) :
    ((overIndent n opener body).map fun raw => Line.ofText raw.body).find? Line.isStructural =
      ((body.map fun raw => Line.ofText raw.body).find? Line.isStructural).map
        (Line.displace n) := by
  induction body generalizing opener with
  | nil => rfl
  | cons raw rest ih =>
    rw [overIndent, List.map_cons, List.map_cons, List.find?_cons, List.find?_cons,
      isStructural_over, ih]
    cases hstructural : (Line.ofText raw.body).isStructural with
    | false => rfl
    | true =>
      have hshifted : raw.isShifted opener = true := by
        rw [RawLine.isShifted]
        split
        · rw [bne_iff_ne]
          intro hblank
          simp [Line.isStructural, Line.isTrivia, hblank] at hstructural
        · exact hstructural
      rw [if_pos hshifted, RawLine.displace, Line.ofText_spaces_append]
      rfl

theorem deep_of_find? (hopener : ∀ o ∈ opener, floor < o)
    (hdeep : ∀ line ∈ outside opener body, floor < line.indent) {next : Line}
    (h : (body.map fun raw => Line.ofText raw.body).find? Line.isStructural = some next) :
    floor < next.indent := by
  induction body generalizing opener with
  | nil => cases h
  | cons raw rest ih =>
    obtain ⟨hfirst, hrest⟩ := forall_outside_cons hdeep
    rw [List.map_cons, List.find?_cons] at h
    split at h
    · rename_i hstructural
      cases h
      exact deep_of_isStructural hopener hfirst hstructural
    · exact ih (deep_openAfter hopener hfirst) hrest h

end Deep

namespace Pass

variable {registry : Registry}

/-! ### The body -/

section Body

variable {frame : Frame} {depth n : Nat} {opener : Option Nat} {body below : List RawLine}

theorem nextStructural?_body (hopener : ∀ o ∈ opener, frame.inputIndent < o)
    (hdeep : ∀ line ∈ outside opener body, frame.inputIndent < line.indent)
    {opener' : Option Nat} (hends : EndsAt registry frame opener' below) (first first' : Nat) :
    (∀ next, InputLine.nextStructural? (InputLine.ofLines first (body ++ below)) = some next →
      frame.inputIndent < next.indent ∨ frame.closesAt registry next = true) ∧
    InputLine.nextStructural?
        (InputLine.ofLines first' (overIndent n opener body ++ below)) =
      (InputLine.nextStructural? (InputLine.ofLines first (body ++ below))).map
        (frame.shiftInside n).line := by
  simp only [InputLine.nextStructural?_ofLines, List.map_append, List.find?_append,
    find?_overIndent]
  cases hbody : (body.map fun raw => Line.ofText raw.body).find? Line.isStructural with
  | some next =>
    have hdeeper := deep_of_find? hopener hdeep hbody
    refine ⟨fun other hother => ?_, ?_⟩
    · cases hother
      exact .inl hdeeper
    · rw [Option.map_some, Option.some_or, Option.some_or, Option.map_some,
        Displacement.line_eq_displace (.inr hdeeper)]
      rfl
  | none =>
    rw [Option.map_none, Option.none_or]
    refine ⟨fun other hother => .inr (hends.closesAt hother), ?_⟩
    cases hbelow : (below.map fun raw => Line.ofText raw.body).find? Line.isStructural with
    | none => rfl
    | some next =>
      have hle := Frame.indent_le_of_closesAt (hends.closesAt hbelow)
      rw [Option.map_some, Displacement.line_of_le hle]

theorem Visit.elsewhere_eq {visit : Visit} {raw : RawLine} {first : Nat}
    (hinput : visit.input = ⟨first, Line.ofText raw.body, raw.ending⟩)
    (hopener : visit.state.body.map ScalarBody.opener = opener) :
    visit.elsewhere (frame.shiftInside n) =
      ⟨first, Line.ofText (if raw.isShifted opener then raw.displace n else raw).body,
        (if raw.isShifted opener then raw.displace n else raw).ending⟩ := by
  have hline : visit.input.line = Line.ofText raw.body := by rw [hinput]
  have hshifted : visit.isShifted = raw.isShifted opener := by
    rw [Visit.isShifted, Visit.isStructural_eq hline, RawLine.isOutside, RawLine.isShifted,
      Visit.isText_eq hline, hopener, hline]
    cases opener.any raw.isTextOf <;> simp
  rw [Visit.elsewhere, hshifted, hinput]
  split
  · rw [RawLine.displace, Line.ofText_spaces_append]
    rfl
  · rfl

theorem closesAt_of_deeper {line : Line} (hdeeper : frame.inputIndent < line.indent) :
    frame.closesAt registry line = false := by
  by_contra hcloses
  rw [Bool.not_eq_false] at hcloses
  exact Nat.not_lt.2 (Frame.indent_le_of_closesAt hcloses) hdeeper

theorem displaced_body (hconfined : registry.Confined) {first : Nat} {state state' : State}
    (hopener : state.body.map ScalarBody.opener = opener)
    (hfloor : ∀ o ∈ opener, frame.inputIndent < o)
    (hdeep : ∀ line ∈ outside opener body, frame.inputIndent < line.indent)
    (hends : EndsAt registry frame (body.foldl openAfter opener) below)
    (hplaced : ∀ visit ∈
      (trail registry state (InputLine.ofLines first (body ++ below))).take body.length,
        visit.isPlaced registry = true → visit.placement registry ≠ .unchanged)
    (hkeeps : state.KeepsOpen frame depth)
    (h : state.Displaced (frame.shiftInside n) .level state') :
    ∃ move : Displacement, move.down = 0 ∧ State.DisplacedResult move .level
      (steps registry state (InputLine.ofLines first (body ++ below)))
      (steps registry state'
        (InputLine.ofLines first (overIndent n opener body ++ below))) := by
  induction body generalizing first state state' opener with
  | nil => exact displaced_below hopener hends hkeeps h
  | cons raw rest ih =>
    obtain ⟨hfirst, hrest⟩ := forall_outside_cons hdeep
    let visit : Visit := ⟨state, ⟨first, Line.ofText raw.body, raw.ending⟩,
      InputLine.ofLines (first + 1) (rest ++ below)⟩
    have hread : visit.input.line.IsRead := Line.isRead_ofText raw.body
    have houtside : visit.isStructural = raw.isOutside opener := by
      rw [← hopener]
      exact Visit.isStructural_eq rfl
    have hdeeper : visit.isStructural = true → frame.inputIndent < visit.input.line.indent :=
      fun hstructural => hfirst (houtside ▸ hstructural)
    rw [List.cons_append, InputLine.ofLines, trail, List.length_cons, List.take_succ_cons,
      List.forall_mem_cons] at hplaced
    have hfloor' := deep_openAfter hfloor hfirst
    rw [List.foldl_cons] at hends
    obtain ⟨hnext, hahead⟩ := nextStructural?_body (n := n) hfloor' hrest hends (first + 1)
      (first + 1)
    have hstep := Visit.displaced_step h hread
      (fun hstructural => Visit.moves_of_keepsOpen hkeeps n (hdeeper hstructural) hplaced.1 hnext)
      hahead
    rw [@Visit.elsewhere_eq frame n opener visit raw first rfl hopener] at hstep
    rw [List.cons_append, overIndent, List.cons_append, InputLine.ofLines, InputLine.ofLines, steps,
      steps]
    generalize hresult : visit.state.step registry visit.input visit.rest = result at hstep
    rw [show state.step registry ⟨first, Line.ofText raw.body, raw.ending⟩
      (InputLine.ofLines (first + 1) (rest ++ below)) = result from hresult] at hplaced
    generalize state'.step registry _ _ = result' at hstep ⊢
    cases hstep with
    | error hfault => exact ⟨{}, rfl, .error hfault⟩
    | ok hdisplaced =>
      have hopener' := @Visit.opener_step registry visit _ raw rfl hresult
      rw [show visit.state.body.map ScalarBody.opener = opener from hopener] at hopener'
      exact ih hopener' hfloor' hrest hends hplaced.2
        (Visit.keepsOpen_step hconfined hread hkeeps
          (fun hstructural => closesAt_of_deeper (hdeeper hstructural)) hresult) hdisplaced

end Body

/-! ### The line that opens the frame -/

namespace State

variable {state : State} {line : Line} {placement : Placement} {indent : Nat}
  {ahead ahead' : Option Line} {frame : Frame}

theorem Opens.key_eq (h : state.Opens registry line placement indent ahead frame) :
    line.key = some frame.key := by
  cases h <;> assumption

theorem Opens.columns_eq (h : state.Opens registry line placement indent ahead frame) {next : Line}
    (hahead : ahead = some next) (hdeeper : frame.inputIndent < next.indent) :
    line.openKeyColumns? indent = some (frame.inputIndent, frame.baseIndent) := by
  cases h with
  | role _ hcolumns _ => exact hcolumns
  | @list key column base below _ hcolumns hbelow _ =>
    obtain rfl : next = below := Option.some.inj (hahead.symm.trans hbelow)
    have hcolumn : min column next.indent = column := by
      simp only at hdeeper
      omega
    rw [hcolumns, hcolumn]
  | inline _ _ _ hbelow _ =>
    cases hahead.symm.trans hbelow
    exact absurd hdeeper (Nat.lt_irrefl _)

/-- Arguments at or left of their module are inside the frame, but not deeper. -/
theorem Opens.scope_eq (h : state.Opens registry line placement indent ahead frame)
    (hnext : ∀ next, ahead = some next →
      frame.inputIndent < next.indent ∨ frame.closesAt registry next = true) :
    frame.scope = {} := by
  cases h with
  | role _ _ _ => rfl
  | list _ _ _ _ => rfl
  | @inline key column base below _ _ _ hbelow hcontinues =>
    rcases hnext below hbelow with hdeeper | hcloses
    · exact absurd hdeeper (Nat.lt_irrefl _)
    · simp only [continuesInlineArgs, Bool.and_eq_true, Bool.not_eq_true'] at hcontinues
      simp only [Frame.closesAt, Frame.withInlineArgs, hcontinues.1.1.1, ne_eq, not_true,
        Bool.false_eq_true, if_false, if_true] at hcloses
      cases hkey : below.key with
      | none => simp [hkey] at hcontinues
      | some key =>
        rw [hkey, Option.all_some] at hcloses
        simp [hkey, hcloses] at hcontinues

/-- The frame of a role does not hang on how deep the lines inside it are. -/
theorem opening?_of_role
    (h : state.opening? registry line placement indent ahead = some frame)
    (hrole : registry.roleOf? frame.key = some frame.role) {n : Nat}
    (hahead : ahead' = ahead.map (frame.shiftInside n).line) :
    state.opening? registry line placement indent ahead' = some frame := by
  have hopens := opens_of_opening? h
  have hfilter : ∀ column base, line.openKeyColumns? indent = some (column, base) →
      ahead'.filter (state.continuesInlineArgs registry column) =
        ahead.filter (state.continuesInlineArgs registry column) := by
    intro column base hcolumns
    cases hnext : ahead with
    | none => rw [hahead, hnext, Option.map_none]
    | some next =>
      rcases Nat.lt_or_ge frame.inputIndent next.indent with hdeeper | hle
      · have hcolumn := hopens.columns_eq hnext hdeeper
        rw [hcolumns, Option.some.injEq, Prod.mk.injEq] at hcolumn
        have hindent : ((frame.shiftInside n).line next).indent = next.indent + n :=
          Displacement.indent_line (.inr hdeeper)
        have hright : ∀ other : Line, column < other.indent →
            state.continuesInlineArgs registry column other = false := by
          intro other hother
          simp [continuesInlineArgs, Nat.not_le.2 hother]
        rw [hahead, hnext, Option.map_some, Option.filter_some, Option.filter_some,
          hright next (by omega), hright _ (by omega)]
        rfl
      · rw [hahead, hnext, Option.map_some, Displacement.line_of_le hle]
  have hframeFor : ∀ column base ahead, state.frameFor? registry frame.key column base ahead =
      some { role := frame.role, key := frame.key, inputIndent := column, baseIndent := base } := by
    intro column base ahead
    rw [frameFor?, hrole]
  rw [← h]
  simp only [opening?, hopens.key_eq, Option.bind_eq_bind, Option.bind_some, hframeFor]
  cases hcolumns : line.openKeyColumns? indent with
  | none => rfl
  | some columns => simp only [Option.bind_some, hfilter _ _ hcolumns]

end State

namespace Visit

variable {visit : Visit} {frame : Frame}

theorem verdict_of_opened? (hopened : visit.opened? registry = some frame) (ahead : Option Line) :
    (visit.ready registry).verdict registry visit.input.line ahead = .stays := by
  have hpair := (State.opens_of_opening? hopened).not_isInlinePair
  rw [State.verdict]
  split
  · rw [hpair, Bool.false_and, Bool.false_and, if_neg Bool.false_ne_true]
  · rfl

theorem step_opener (hplaced : visit.isPlaced registry = true)
    (hopened : visit.opened? registry = some frame)
    (hrole : registry.roleOf? frame.key = some frame.role) {n : Nat} {rest : List InputLine}
    (hrest : InputLine.nextStructural? rest =
      (InputLine.nextStructural? visit.rest).map (frame.shiftInside n).line) :
    visit.state.step registry visit.input rest =
      visit.state.step registry visit.input visit.rest := by
  refine step_congr (isPlaced_iff.1 hplaced).1 ?_ ?_
  · rw [verdict_of_opened? hopened, verdict_of_opened? hopened]
  · rw [hopened]
    exact State.opening?_of_role hopened hrole hrest

/-- Once the frame is open, nothing in either document is further to the right yet. -/
theorem displaced_opened (hconfined : registry.Confined) (hread : visit.input.line.IsRead)
    (hplaced : visit.isPlaced registry = true) (hopened : visit.opened? registry = some frame)
    (hnext : ∀ next, InputLine.nextStructural? visit.rest = some next →
      frame.inputIndent < next.indent ∨ frame.closesAt registry next = true)
    (horder : visit.state.InOrder) {next : State}
    (hstep : visit.state.step registry visit.input visit.rest = .ok next) (n : Nat) :
    next.body = none ∧ next.Displaced (frame.shiftInside n) .level next ∧
      ∃ depth, next.KeepsOpen frame depth := by
  have hopens := State.opens_of_opening? hopened
  have horder' := inOrder_step hconfined hread horder hstep
  obtain ⟨events, hsettled⟩ := step_eq_opened hplaced
  rw [hopened, hstep] at hsettled
  have hstack := State.stack_openFrame hsettled.symm
  have hbody : next.body = none := by
    rw [State.body_openFrame hsettled.symm]
    exact if_neg (by rw [hopens.not_blockScalar hread]; exact Bool.false_ne_true)
  have haround : ∃ depth, next.stack.Around depth frame.IsNow := by
    rw [hstack]
    exact ⟨_, Stack.around_head rfl ⟨rfl, rfl, rfl, rfl⟩⟩
  refine ⟨hbody, ?_, haround.imp fun _ haround => ⟨horder', haround⟩⟩
  refine (State.Displaced.refl next).congr_move rfl (fun other hother => ?_) hbody rfl
  rw [@Displacement.frame_eq_self {} _ rfl (.inl rfl)]
  have hinside := horder'.inside
  rw [hstack] at hother hinside
  rcases List.mem_cons.1 hother with rfl | houter
  · exact Frame.shiftInside_frame n (hopens.scope_eq hnext) hopens.fresh.2
  · exact Displacement.frame_eq_self rfl (.inr ((List.pairwise_cons.1 hinside).1 other houter).base)

end Visit

/-! ### The document -/

/-- The line opens `frame` by the role of its key, and `body` is what is inside the frame: every
line of the structure in it is deeper than the frame, and the line below it, if there is one, ends
the frame. -/
structure Visit.OpensBody (registry : Registry) (visit : Visit) (frame : Frame)
    (body below : List RawLine) : Prop where
  placed : visit.isPlaced registry = true
  opened : visit.opened? registry = some frame
  role : registry.roleOf? frame.key = some frame.role
  deeper : ∀ line ∈ outside none body, frame.inputIndent < line.indent
  ends : EndsAt registry frame (openBelow body) below

/-- Two passes break off with the same fault, or have the same output and lift as many lines. -/
inductive SameOutput : Except Failure Pass → Except Failure Pass → Prop
  | ok {pass pass' : Pass} : pass'.lines = pass.lines →
      pass'.stats.relocated = pass.stats.relocated → SameOutput (.ok pass) (.ok pass')
  | error {failure failure' : Failure} : failure'.fault = failure.fault →
      SameOutput (.error failure) (.error failure')

theorem displaced_document (hconfined : registry.Confined) {before after : List Visit}
    {visit : Visit} {frame : Frame} {above body below : List RawLine} {opener : RawLine}
    (htrail : trail registry {} (InputLine.ofLines 1 (above ++ opener :: (body ++ below))) =
      before ++ visit :: after)
    (hlength : above.length = before.length) (hbody : visit.OpensBody registry frame body below)
    (hplaced : ∀ inner ∈ after.take body.length, inner.isPlaced registry = true →
      inner.placement registry ≠ .unchanged) (n : Nat) :
    ∃ move : Displacement, move.down = 0 ∧ State.DisplacedResult move .level
      (steps registry {} (InputLine.ofLines 1 (above ++ opener :: (body ++ below))))
      (steps registry {}
        (InputLine.ofLines 1 (above ++ opener :: (overIndent n none body ++ below)))) := by
  have hread : ∀ input ∈ InputLine.ofLines 1 (above ++ opener :: (body ++ below)),
      input.line.IsRead := fun _ hinput => InputLine.isRead_of_mem_ofLines hinput
  have hmem : visit ∈ trail registry {}
      (InputLine.ofLines 1 (above ++ opener :: (body ++ below))) := by simp [htrail]
  have hline := hread _ (input_of_mem_trail hmem)
  have horder := inOrder_of_mem_trail hconfined hread .initial hmem
  rw [InputLine.ofLines_append, InputLine.ofLines] at htrail
  obtain ⟨habove, hvisits⟩ := stepsAbove_of_trail htrail
    ((InputLine.length_ofLines 1 above).trans hlength)
  rw [trail, List.cons.injEq] at hvisits
  obtain ⟨hvisit, hafter⟩ := hvisits
  obtain ⟨hnext, hrest⟩ := @nextStructural?_body registry frame n none body below
    (fun _ ho => by cases ho) hbody.deeper _ hbody.ends (1 + above.length + 1) (1 + above.length + 1)
  have hsame : stepsAbove registry {} (InputLine.ofLines 1 above)
      (InputLine.ofLines (1 + above.length) (opener :: (overIndent n none body ++ below))) =
        .ok visit.state := by
    rw [← habove]
    refine stepsAbove_congr ?_ _ _
    -- The line that opens the frame is the next line of the structure.
    have hstructural := (Visit.isStructural_iff.1 (Visit.isPlaced_iff.1 hbody.placed).1).2
    rw [← hvisit] at hstructural
    rw [InputLine.ofLines, InputLine.nextStructural?_cons hstructural,
      InputLine.nextStructural?_cons hstructural]
  obtain ⟨state, input, rest⟩ := visit
  cases hvisit
  rw [InputLine.ofLines_append, InputLine.ofLines_append, steps_append, steps_append, hsame,
    InputLine.ofLines, habove, InputLine.ofLines]
  simp only
  have hopener := Visit.step_opener hbody.placed hbody.opened hbody.role hrest
  simp only at hopener
  rw [steps, steps, hopener]
  cases hstep : State.step _ registry _ _ with
  | error failure => exact ⟨{}, rfl, .error rfl⟩
  | ok next =>
    obtain ⟨hnone, hdisplaced, depth, hkeeps⟩ := Visit.displaced_opened hconfined hline
      hbody.placed hbody.opened hnext horder hstep n
    rw [hstep] at hafter
    have hafter : trail registry next _ = after := hafter
    rw [← hafter] at hplaced
    exact displaced_body hconfined (by rw [hnone]; rfl) (fun _ ho => by cases ho)
      hbody.deeper hbody.ends hplaced hkeeps hdisplaced

theorem sameOutput_of_displaced {text text' : Text} {move : Displacement} (hdown : move.down = 0)
    (h : State.DisplacedResult move .level
      (steps registry {} (InputLine.ofLines 1 text.splitLines))
      (steps registry {} (InputLine.ofLines 1 text'.splitLines))) :
    SameOutput (run registry text) (run registry text') := by
  generalize hsteps : steps registry {} (InputLine.ofLines 1 text.splitLines) = result at h
  generalize hsteps' : steps registry {} (InputLine.ofLines 1 text'.splitLines) = result' at h
  cases h with
  | error hfault =>
    simp only [run, runLines, hsteps, hsteps']
    exact .error hfault
  | ok hfinal =>
    have hunwound := hfinal.unwind
    obtain ⟨lines, hwritten, hwritten'⟩ := hunwound.written
    rw [hdown, OutLine.renumber_zero, List.map_id] at hwritten'
    rw [run_of_steps hsteps, run_of_steps hsteps']
    refine .ok ?_ hunwound.relocated
    change (unwind _).written.reverse = (unwind _).written.reverse
    rw [hwritten, hwritten']
    rfl

/-- How far the body of a frame is indented has no part in where its lines go, if all of it is
deeper than the frame and its place tells the column of each of its lines. -/
theorem run_overIndent (extra : RegistryExtension) {text : Text} {before after : List Visit}
    {visit : Visit} {frame : Frame} {above body below : List RawLine} {opener : RawLine}
    (hlines : text.splitLines = above ++ opener :: (body ++ below))
    (htrail : trailOf (.extended extra) text = before ++ visit :: after)
    (hlength : above.length = before.length)
    (hbody : visit.OpensBody (.extended extra) frame body below)
    (hplaced : ∀ inner ∈ after.take body.length, inner.isPlaced (.extended extra) = true →
      inner.placement (.extended extra) ≠ .unchanged) (n : Nat) :
    SameOutput (run (.extended extra) text)
      (run (.extended extra)
        ((above ++ opener :: (overIndent n none body ++ below)).flatMap RawLine.text)) := by
  have hsteps := displaced_document (Registry.confined_extended extra)
    (by rw [← hlines]; exact htrail) hlength hbody hplaced n
  obtain ⟨move, hdown, hsteps⟩ := hsteps
  refine sameOutput_of_displaced hdown ?_
  rw [hlines, splitLines_overIndent hlines]
  exact hsteps

/-- A play whose tasks are indented too far, and a play after it. -/
def deepTasks : Text :=
  ("- hosts: a\n  tasks:\n      - name: b\n        shell: |\n           echo\n        tags: c\n" ++
    "- hosts: d\n").toList

/-- The same, with the tasks three columns further to the right. -/
def deeperTasks : Text :=
  ("- hosts: a\n  tasks:\n         - name: b\n           shell: |\n              echo\n" ++
    "           tags: c\n- hosts: d\n").toList

/-- The frame of the tasks. -/
def tasksFrame : Frame :=
  { role := .sectionTasks, key := "tasks".toList, inputIndent := 2, baseIndent := 2 }

/-- The tasks are repaired alike, with the script of the first one. -/
theorem run_overIndent_deepTasks :
    ∃ visit, (trailOf (.extended {}) deepTasks)[1]? = some visit ∧
      visit.OpensBody (.extended {}) tasksFrame ((deepTasks.splitLines.drop 2).take 4)
        (deepTasks.splitLines.drop 6) ∧
      SameOutput (run (.extended {}) deepTasks) (run (.extended {}) deeperTasks) := by
  have hopens : ((trailOf (.extended {}) deepTasks)[1]?).any (fun visit =>
      visit.isPlaced (.extended {}) && visit.opened? (.extended {}) == some tasksFrame) = true := by
    decide +kernel
  have hplaced : ∀ inner ∈ ((trailOf (.extended {}) deepTasks).drop 2).take 4,
      inner.isPlaced (.extended {}) = true → inner.placement (.extended {}) ≠ .unchanged := by
    decide +kernel
  obtain ⟨visit, hvisit, hopened⟩ := Option.any_eq_true _ _ |>.1 hopens
  simp only [Bool.and_eq_true, beq_iff_eq] at hopened
  have hbody : visit.OpensBody (.extended {}) tasksFrame ((deepTasks.splitLines.drop 2).take 4)
      (deepTasks.splitLines.drop 6) := by
    refine ⟨hopened.1, hopened.2, by decide +kernel, by decide +kernel, fun raw hraw => ?_⟩
    have hlast : deepTasks.splitLines.drop 6 = [⟨"- hosts: d".toList, .lf⟩] := by decide +kernel
    rw [hlast] at hraw
    cases hraw
    decide +kernel
  obtain ⟨hlt, hget⟩ := List.getElem?_eq_some_iff.1 hvisit
  have htrail : trailOf (.extended {}) deepTasks =
      (trailOf (.extended {}) deepTasks).take 1 ++
        visit :: (trailOf (.extended {}) deepTasks).drop 2 := by
    rw [← hget, ← List.drop_eq_getElem_cons hlt, List.take_append_drop]
  have hlines : deepTasks.splitLines = deepTasks.splitLines.take 1 ++
      ⟨"  tasks:".toList, .lf⟩ ::
        ((deepTasks.splitLines.drop 2).take 4 ++ deepTasks.splitLines.drop 6) := by
    decide +kernel
  have hdeeper : (deepTasks.splitLines.take 1 ++ ⟨"  tasks:".toList, .lf⟩ ::
      (overIndent 3 none ((deepTasks.splitLines.drop 2).take 4) ++
        deepTasks.splitLines.drop 6)).flatMap RawLine.text = deeperTasks := by
    decide +kernel
  refine ⟨visit, hvisit, hbody, ?_⟩
  rw [← hdeeper]
  exact run_overIndent {} hlines htrail (by decide +kernel) hbody hplaced 3

end Pass
end Reindent
