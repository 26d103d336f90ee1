import Reindent.Proofs.Line.Opener
import Reindent.Proofs.Pass.Alike
import Reindent.Proofs.Pass.Final
import Reindent.Proofs.Pass.Lookahead

/-!
# Reindent.Proofs.Pass.BlockText

The text of block scalars has no part in the structure of a document.

* `openBelow`     — the block scalar whose text the next line may be, read off the lines above it.
* `AlikeOutside`  — documents that differ in the text of block scalars only.
* `steps_alike`   — a pass goes through such documents alike.
* `CarriesBlocks` — the text of a block scalar directly follows its opener, and moves as it does.
* `block_text_carried` — both hold in every pass.
-/

namespace Reindent
namespace RawLine

/-- The column of a line that opens a block scalar. -/
def opens? (raw : RawLine) : Option Nat :=
  let line := Line.ofText raw.body
  if line.isStructural && line.blockScalar then some line.indent else none

/-- The line is blank, or deeper than the opener at the given column. -/
def isTextOf (raw : RawLine) (opener : Nat) : Bool :=
  let line := Line.ofText raw.body
  line.category == .blank || line.indent > opener

end RawLine

/-- The column of the opener whose text the next line may be, after the given line. -/
def openAfter (opener : Option Nat) (raw : RawLine) : Option Nat :=
  if opener.any raw.isTextOf then opener else raw.opens?

/-- The column of the opener whose text the line below the given lines may be. -/
def openBelow (lines : List RawLine) : Option Nat :=
  lines.foldl openAfter none

/-- The documents have the same lines except for the text of block scalars. The first argument is
the opener whose text their first lines may be. -/
inductive AlikeOutside : Option Nat → List RawLine → List RawLine → Prop
  | nil {opener : Option Nat} : AlikeOutside opener [] []
  | text {opener : Nat} {raw raw' : RawLine} {rest rest' : List RawLine} :
      raw.isTextOf opener = true → raw'.isTextOf opener = true → raw'.ending = raw.ending →
      AlikeOutside (some opener) rest rest' →
      AlikeOutside (some opener) (raw :: rest) (raw' :: rest')
  | line {opener : Option Nat} {raw : RawLine} {rest rest' : List RawLine} :
      opener.any raw.isTextOf = false → AlikeOutside raw.opens? rest rest' →
      AlikeOutside opener (raw :: rest) (raw :: rest')

theorem AlikeOutside.length_eq {opener : Option Nat} {lines lines' : List RawLine}
    (h : AlikeOutside opener lines lines') : lines'.length = lines.length := by
  induction h with
  | nil => rfl
  | text _ _ _ _ ih => rw [List.length_cons, List.length_cons, ih]
  | line _ _ ih => rw [List.length_cons, List.length_cons, ih]

theorem AlikeOutside.nextStructural?_eq {lines lines' : List RawLine}
    (h : AlikeOutside none lines lines') (n : Nat) :
    InputLine.nextStructural? (InputLine.ofLines n lines') =
      InputLine.nextStructural? (InputLine.ofLines n lines) := by
  induction lines generalizing lines' n with
  | nil =>
    cases h
    rfl
  | cons raw rest ih =>
    cases h with
    | line _ hrest =>
      simp only [InputLine.ofLines, InputLine.nextStructural?, List.find?_cons]
      cases hline : (Line.ofText raw.body).isStructural with
      | true => rfl
      | false =>
        have hnone : raw.opens? = none := by simp [RawLine.opens?, hline]
        rw [hnone] at hrest
        exact ih hrest (n + 1)

namespace Pass

variable {registry : Registry} {differs : Nat → Prop}

/-! ### The opener whose text a line may be -/

namespace State

variable {state : State}

theorem body_flushEntry (state : State) (entry : Option Entry) :
    (state.flushEntry entry).body = state.body := by
  cases entry <;> rfl

theorem body_release (state : State) (atEnd : Bool) (frame : Frame) :
    (state.release atEnd frame).body = state.body := by
  simp only [release]
  split
  · rfl
  · split
    · rfl
    · simp only [handOver]
      split
      · rfl
      · split <;> rfl

theorem body_closeTop (state : State) (atEnd : Bool) :
    (state.closeTop atEnd).body = state.body := by
  cases hstack : state.stack with
  | nil => simp [closeTop, hstack]
  | cons frame rest => simp [closeTop, hstack, body_release, body_flushEntry]

theorem body_closeFor (state : State) (line : Line) :
    (state.closeFor registry line).body = state.body :=
  closeFor_keeps (P := fun closed => closed.body = state.body)
    (fun closed h => (body_closeTop closed false).trans h) registry line rfl

theorem body_writeBody (state : State) (input : InputLine) (shift : Int) :
    (state.writeBody input shift).body = state.body := by
  simp only [writeBody]
  split <;> rfl

theorem body_liftOut (state : State) (input : InputLine) (key : Text) :
    (state.liftOut input key).body = state.body := by
  simp only [liftOut]
  split <;> rfl

theorem structural_of_blockScalar {input : InputLine} (hread : input.line.IsRead)
    (hscalar : input.line.blockScalar = true) (ahead ahead' : Option Line) :
    state.structural registry input ahead' = state.structural registry input ahead := by
  have hverdict : ∀ ahead, (state.closeFor registry input.line).verdict registry input.line ahead =
      .stays := by
    intro ahead
    simp only [verdict, Line.isInlinePair, hscalar, Bool.not_true, Bool.and_false, Bool.false_and,
      Bool.false_eq_true, if_false]
    split <;> rfl
  have hopens : ∀ (state : State) (placement : Placement) (indent : Nat) (ahead : Option Line),
      state.opening? registry input.line placement indent ahead = none := by
    intro state placement indent ahead
    cases hopening : state.opening? registry input.line placement indent ahead with
    | none => rfl
    | some frame =>
      rw [(opens_of_opening? hopening).not_blockScalar hread] at hscalar
      cases hscalar
  simp only [structural, hverdict, settle, hopens]

end State

namespace Visit

variable {visit : Visit} {next : State}

theorem not_blockScalar_of_isRelocated (h : visit.isRelocated registry = true) :
    visit.input.line.blockScalar = false := by
  obtain ⟨_, _, _, _, hpair, _⟩ := exists_stranded h
  simp only [Line.isInlinePair, Bool.and_eq_true, Bool.not_eq_true'] at hpair
  exact hpair.2

theorem body_step (hstep : visit.state.step registry visit.input visit.rest = .ok next) :
    next.body =
      if visit.isText then visit.state.body
      else if visit.isStructural && visit.input.line.blockScalar then
        some ⟨visit.input.line.indent,
          (visit.column registry : Int) - visit.input.line.indent⟩
      else none := by
  have houtcome := outcome_step registry visit
  rw [hstep] at houtcome
  generalize hresult : Except.ok next = result at houtcome
  cases houtcome with
  | text htext hbody =>
    cases hresult
    rw [htext, if_pos rfl, State.body_writeBody]
  | loose htext hline =>
    cases hresult
    rw [State.body_passThrough]
    simp [htext, isStructural, hline]
  | @relocated frame rest key events hrelocated _ =>
    cases hresult
    obtain ⟨hstructural, _⟩ := isRelocated_iff.1 hrelocated
    obtain ⟨htext, _⟩ := isStructural_iff.1 hstructural
    have hscalar := not_blockScalar_of_isRelocated hrelocated
    have hready : (visit.ready registry).body = none := State.body_closeFor _ _
    rw [State.body_liftOut, htext, hscalar, Bool.and_false]
    exact hready
  | @placed events hplaced =>
    obtain ⟨hstructural, hlifted⟩ := isPlaced_iff.1 hplaced
    obtain ⟨htext, hline⟩ := isStructural_iff.1 hstructural
    have hcolumn : visit.column registry =
        (visit.placement registry).indent visit.input.line := by
      simp [column, htext, hline, hlifted]
    have hsettled : (((visit.ready registry).withEvents events).settled visit.input).body =
        if visit.input.line.blockScalar then
          some ⟨visit.input.line.indent, (visit.column registry : Int) - visit.input.line.indent⟩
        else none := by
      rw [hcolumn]
      rfl
    rw [htext, hstructural, Bool.true_and, if_neg Bool.false_ne_true, ← hsettled]
    rw [State.settle_eq] at hresult
    split at hresult
    · exact State.body_openFrame hresult.symm
    · cases hresult
      rfl

theorem isText_eq {raw : RawLine} (hline : visit.input.line = Line.ofText raw.body) :
    visit.isText = (visit.state.body.map ScalarBody.opener).any raw.isTextOf := by
  rw [isText, Option.any_map, hline]
  rfl

theorem opener_step {raw : RawLine} (hline : visit.input.line = Line.ofText raw.body)
    (hstep : visit.state.step registry visit.input visit.rest = .ok next) :
    next.body.map ScalarBody.opener =
      openAfter (visit.state.body.map ScalarBody.opener) raw := by
  rw [body_step hstep, openAfter, ← isText_eq hline]
  cases htext : visit.isText with
  | true => rfl
  | false =>
    simp only [isStructural, htext, Bool.not_false, Bool.true_and, Bool.false_eq_true, if_false,
      RawLine.opens?, hline]
    split <;> rfl

end Visit

/-! ### Documents that differ in the text of block scalars -/

namespace State

variable {state state' : State}

theorem step_of_text (registry : Registry) {body : ScalarBody} (input : InputLine)
    (rest : List InputLine) (hbody : state.body = some body)
    (htext : continuesBody input.line body = true) :
    state.step registry input rest = .ok (state.writeBody input body.shift) := by
  rw [step, hbody, Option.filter_some, if_pos htext]

namespace Alike

theorem writeBody (h : state.Alike differs state') {input input' : InputLine} (shift : Int)
    (hnumber : input'.number = input.number) (hsame : input' = input ∨ differs input.number) :
    (state.writeBody input shift).Alike differs (state'.writeBody input' shift) := by
  simp only [State.writeBody]
  rcases hsame with rfl | hdiffers
  · split
    · exact h.write rfl (.inl ⟨rfl, rfl⟩)
    · exact h.countReindented.countReindented'.write rfl (.inl ⟨rfl, rfl⟩)
  · split
    · split
      · exact h.write hnumber (.inr hdiffers)
      · exact h.countReindented'.write hnumber (.inr hdiffers)
    · split
      · exact h.countReindented.write hnumber (.inr hdiffers)
      · exact h.countReindented.countReindented'.write hnumber (.inr hdiffers)

theorem step (h : state.Alike differs state') {input : InputLine} {rest rest' : List InputLine}
    (hread : input.line.IsRead)
    (htext : state.body.any (continuesBody input.line) = false)
    (hnext : input.line.isStructural = true → input.line.blockScalar = true ∨
      InputLine.nextStructural? rest' = InputLine.nextStructural? rest) :
    AlikeResult differs (state.step registry input rest) (state'.step registry input rest') := by
  have hnone : state.body.filter (continuesBody input.line) = none := by
    cases hbody : state.body with
    | none => rfl
    | some body => simpa [hbody] using htext
  have houtside : Alike differs { state with body := none } { state' with body := none } :=
    h.map (f := fun state => { state with body := none }) (fun _ _ => rfl) rfl
  simp only [State.step, h.body, hnone]
  split
  · rename_i hstructural
    rcases hnext hstructural with hscalar | hsame
    · rw [structural_of_blockScalar hread hscalar (InputLine.nextStructural? rest)
        (InputLine.nextStructural? rest')]
      exact houtside.structural input _
    · rw [hsame]
      exact houtside.structural input _
  · exact .ok (houtside.passThrough input)

end Alike
end State

/-- A pass goes through documents alike that differ in the text of block scalars only. -/
theorem steps_alike {opener : Option Nat} {lines lines' : List RawLine} {n : Nat}
    {state state' : State} (h : AlikeOutside opener lines lines')
    (hopener : state.body.map ScalarBody.opener = opener) (halike : state.Alike differs state')
    (hdiffers : ∀ i, lines[i]? ≠ lines'[i]? → differs (n + i)) :
    State.AlikeResult differs (steps registry state (InputLine.ofLines n lines))
      (steps registry state' (InputLine.ofLines n lines')) := by
  induction h generalizing n state state' with
  | nil => exact .ok halike
  | @text opener raw raw' rest rest' hraw hraw' hending _ ih =>
    obtain ⟨body, hbody, rfl⟩ := Option.map_eq_some_iff.1 hopener
    have hstep := State.step_of_text registry ⟨n, Line.ofText raw.body, raw.ending⟩
      (InputLine.ofLines (n + 1) rest) hbody hraw
    have hstep' := State.step_of_text registry ⟨n, Line.ofText raw'.body, raw'.ending⟩
      (InputLine.ofLines (n + 1) rest') (halike.body.trans hbody) hraw'
    simp only [InputLine.ofLines, steps, hstep, hstep']
    refine ih ?_ (halike.writeBody body.shift rfl ?_) ?_
    · rw [State.body_writeBody, hbody, Option.map_some]
    · by_cases hsame : raw' = raw
      · exact .inl (by rw [hsame])
      · exact .inr (hdiffers 0 (by simpa using Ne.symm hsame))
    · intro i hi
      have hbelow := hdiffers (i + 1) (by simpa using hi)
      rwa [show n + (i + 1) = n + 1 + i by omega] at hbelow
  | @line opener raw rest rest' hraw hrest ih =>
    have htext : state.body.any (State.continuesBody (Line.ofText raw.body)) = false := by
      rw [← hopener, Option.any_map] at hraw
      exact hraw
    have hnext : (Line.ofText raw.body).isStructural = true →
        (Line.ofText raw.body).blockScalar = true ∨
          InputLine.nextStructural? (InputLine.ofLines (n + 1) rest') =
            InputLine.nextStructural? (InputLine.ofLines (n + 1) rest) := by
      intro hstructural
      cases hscalar : (Line.ofText raw.body).blockScalar with
      | true => exact .inl rfl
      | false =>
        have hnone : raw.opens? = none := by simp [RawLine.opens?, hscalar]
        rw [hnone] at hrest
        exact .inr (hrest.nextStructural?_eq (n + 1))
    have hstep : State.AlikeResult differs
        (state.step registry ⟨n, Line.ofText raw.body, raw.ending⟩ (InputLine.ofLines (n + 1) rest))
        (state'.step registry ⟨n, Line.ofText raw.body, raw.ending⟩
          (InputLine.ofLines (n + 1) rest')) :=
      halike.step (Line.isRead_ofText raw.body) htext hnext
    simp only [InputLine.ofLines, steps]
    generalize hresult : state.step registry _ _ = result at hstep
    generalize state'.step registry _ _ = result' at hstep
    cases hstep with
    | error failure => exact .error failure
    | @ok next next' hnexts =>
      have hopens := @Visit.opener_step registry ⟨state, _, _⟩ next raw rfl hresult
      refine ih ?_ hnexts ?_
      · rw [hopens, openAfter, hopener, hraw]
        rfl
      · intro i hi
        have hbelow := hdiffers (i + 1) (by simpa using hi)
        rwa [show n + (i + 1) = n + 1 + i by omega] at hbelow

/-- Another document that differs in the text of block scalars only fails in the same way. Or else
the lines of the two outputs come from the same places, and wherever the documents agree, so do the
outputs. -/
theorem runLines_alike {lines lines' : List RawLine} (h : AlikeOutside none lines lines') :
    (∃ failure, runLines registry lines = .error failure ∧
      runLines registry lines' = .error failure) ∨
    ∃ pass pass', runLines registry lines = .ok pass ∧ runLines registry lines' = .ok pass' ∧
      List.Forall₂ (fun out out' => out'.number = out.number ∧
        (lines[out.number - 1]? = lines'[out.number - 1]? → out' = out)) pass.lines pass'.lines := by
  have hsteps : State.AlikeResult (fun n => lines[n - 1]? ≠ lines'[n - 1]?)
      (steps registry {} (InputLine.ofLines 1 lines))
      (steps registry {} (InputLine.ofLines 1 lines')) := by
    refine steps_alike h rfl (State.Alike.refl _) fun i hi => ?_
    rwa [Nat.add_sub_cancel_left]
  simp only [runLines]
  generalize steps registry {} (InputLine.ofLines 1 lines) = result at hsteps
  generalize steps registry {} (InputLine.ofLines 1 lines') = result' at hsteps
  cases hsteps with
  | error failure => exact .inl ⟨failure, rfl, rfl⟩
  | @ok state state' halike =>
    have hfinish := halike.finish
    simp only
    generalize finish state = result at hfinish
    generalize finish state' = result' at hfinish
    cases hfinish with
    | error failure => exact .inl ⟨failure, rfl, rfl⟩
    | @ok final final' hfinal =>
      simp only [collect, h.length_eq, hfinal.length_written, hfinal.fail]
      split
      · exact .inl ⟨_, rfl, rfl⟩
      · obtain ⟨written, reindented, rfl, hwritten⟩ := hfinal
        refine .inr ⟨_, _, rfl, rfl, List.rel_reverse (hwritten.imp fun out out' halike => ?_)⟩
        exact ⟨halike.number, fun hsame => halike.same.resolve_right (not_not_intro hsame)⟩

/-! ### The text of a block scalar -/

/-- `carried` is written for `text`, a line of the block scalar of `opener`, for which `out` is
written. -/
structure CarriedWith (opener : RawLine) (out : OutLine) (text : RawLine) (carried : OutLine) :
    Prop where
  ending : carried.ending = text.ending
  blank : (Line.ofText text.body).category = .blank → carried.body = text.body
  content : carried.body.drop carried.body.indent = text.body.drop text.body.indent
  column : (Line.ofText text.body).category ≠ .blank →
    (carried.body.indent : Int) - text.body.indent = out.body.indent - opener.body.indent
  deeper : (Line.ofText text.body).category ≠ .blank → out.body.indent < carried.body.indent

/-- The text of every block scalar is written directly below its opener, in its order, and moves as
the opener does. -/
def CarriesBlocks (lines : List RawLine) (pass : Pass) : Prop :=
  ∀ (above texts below : List RawLine) (opener : RawLine) (depth : Nat),
    lines = above ++ opener :: (texts ++ below) → (openBelow above).any opener.isTextOf = false →
    opener.opens? = some depth → (∀ text ∈ texts, text.isTextOf depth = true) →
    ∃ before out carried after, pass.lines = before ++ out :: (carried ++ after) ∧
      out.number = above.length + 1 ∧
      carried.map OutLine.number = List.range' (above.length + 2) texts.length ∧
      List.Forall₂ (CarriedWith opener out) texts carried

/-- What is written for a line of a block scalar. -/
def carry (shift : Int) (input : InputLine) : OutLine :=
  { body :=
      Text.spaces (if input.line.category = .blank then input.line.indent
        else (input.line.indent + shift).toNat) ++ input.line.content
    ending := input.ending, number := input.number, trivia := false }

theorem opener_stepsAbove {above : List RawLine} {rest : List InputLine} {n : Nat}
    {state next : State}
    (h : stepsAbove registry state (InputLine.ofLines n above) rest = .ok next) :
    next.body.map ScalarBody.opener =
      above.foldl openAfter (state.body.map ScalarBody.opener) := by
  induction above generalizing n state with
  | nil =>
    cases h
    rfl
  | cons raw above ih =>
    rw [InputLine.ofLines, stepsAbove] at h
    split at h
    · rename_i mid hstep
      rw [ih h, List.foldl_cons, ← @Visit.opener_step registry ⟨state, _, _⟩ mid raw rfl hstep]
    · cases h

theorem steps_above {above below : List RawLine} {n : Nat} {state final : State}
    (h : steps registry state (InputLine.ofLines n (above ++ below)) = .ok final) :
    ∃ next, next.body.map ScalarBody.opener =
        above.foldl openAfter (state.body.map ScalarBody.opener) ∧
      steps registry next (InputLine.ofLines (n + above.length) below) = .ok final := by
  rw [InputLine.ofLines_append, steps_append] at h
  split at h
  · rename_i next habove
    exact ⟨next, opener_stepsAbove habove, h⟩
  · cases h

theorem steps_texts {texts below : List RawLine} {n : Nat} {state final : State}
    {body : ScalarBody} (hbody : state.body = some body)
    (hlast : ∀ line ∈ state.written.head?, line.trivia = false)
    (htexts : ∀ text ∈ texts, text.isTextOf body.opener = true)
    (h : steps registry state (InputLine.ofLines n (texts ++ below)) = .ok final) :
    ∃ next, next.written =
        ((InputLine.ofLines n texts).map (carry body.shift)).reverse ++ state.written ∧
      (∀ line ∈ next.written.head?, line.trivia = false) ∧
      steps registry next (InputLine.ofLines (n + texts.length) below) = .ok final := by
  induction texts generalizing n state with
  | nil => exact ⟨state, rfl, hlast, h⟩
  | cons raw texts ih =>
    obtain ⟨hraw, htexts⟩ := List.forall_mem_cons.1 htexts
    have hstep := State.step_of_text registry ⟨n, Line.ofText raw.body, raw.ending⟩
      (InputLine.ofLines (n + 1) (texts ++ below)) hbody hraw
    have hwrites := @State.written_writeBody state ⟨n, Line.ofText raw.body, raw.ending⟩
      (Line.isRead_ofText raw.body) body.shift
    have htop : ∀ line ∈ (state.writeBody ⟨n, Line.ofText raw.body, raw.ending⟩
        body.shift).written.head?, line.trivia = false := by
      rw [hwrites]
      rintro line ⟨⟩
      rfl
    simp only [List.cons_append, InputLine.ofLines, steps, hstep] at h
    obtain ⟨next, hwritten, hcontent, hnext⟩ :=
      ih ((State.body_writeBody _ _ _).trans hbody) htop htexts h
    refine ⟨next, ?_, hcontent, ?_⟩
    · rw [hwritten, hwrites]
      simp [InputLine.ofLines, carry]
    · rw [List.length_cons, show n + (texts.length + 1) = n + 1 + texts.length by omega]
      exact hnext

theorem Visit.written_of_opens {visit : Visit} {next : State} {raw : RawLine} {depth : Nat}
    (hline : visit.input.line = Line.ofText raw.body) (htext : visit.isText = false)
    (hopens : raw.opens? = some depth)
    (hstep : visit.state.step registry visit.input visit.rest = .ok next) :
    raw.body.indent = depth ∧ (visit.out registry).trivia = false ∧
      (∃ above, next.written = visit.out registry :: above) ∧
      next.body = some ⟨depth, ((visit.out registry).body.indent : Int) - depth⟩ := by
  have hread : visit.input.line.IsRead := by
    rw [hline]
    exact Line.isRead_ofText raw.body
  simp only [RawLine.opens?, ← hline] at hopens
  split at hopens
  · rename_i hopener
    rw [Bool.and_eq_true] at hopener
    obtain ⟨hstructural, hscalar⟩ := hopener
    have hdepth : visit.input.line.indent = depth := Option.some.inj hopens
    have hbody := body_step hstep
    rw [htext, if_neg Bool.false_ne_true, isStructural_iff.2 ⟨htext, hstructural⟩, hscalar,
      Bool.true_and, if_pos rfl, hdepth] at hbody
    have hstays : visit.isRelocated registry = false := by
      cases hrelocated : visit.isRelocated registry with
      | false => rfl
      | true =>
        rw [not_blockScalar_of_isRelocated hrelocated] at hscalar
        cases hscalar
    obtain ⟨before, _, hwrites⟩ := step_of_stable (P := fun _ => True)
      ⟨fun _ _ h => h, fun _ _ _ _ h => h⟩ trivial hread hstep
    rw [hstays, if_neg Bool.false_ne_true] at hwrites
    have hcolumn : (visit.out registry).body.indent = visit.column registry :=
      hread.indent_spaces_content _
    refine ⟨?_, ?_, ⟨before.written, hwrites.1⟩, ?_⟩
    · rw [← hdepth, hline, Line.indent_ofText]
    · rw [out, not_isTrivia_of_isStructural hstructural, Bool.and_false]
    · rw [hbody, hcolumn]
  · cases hopens

/-- Text that is deeper than its opener stays so, since it moves as the opener does. -/
theorem carriedWith_carry {opener text : RawLine} {out : OutLine} {depth : Nat}
    (hopener : opener.body.indent = depth) (htext : text.isTextOf depth = true) (n : Nat) :
    CarriedWith opener out text (carry ((out.body.indent : Int) - depth)
      ⟨n, Line.ofText text.body, text.ending⟩) := by
  have hread := Line.isRead_ofText text.body
  have hindent : (Line.ofText text.body).indent = text.body.indent := Line.indent_ofText text.body
  have hcontent : (Line.ofText text.body).content = text.body.drop text.body.indent := by
    rw [Line.content, Line.text_ofText, hindent]
  have hdeep : (Line.ofText text.body).category ≠ .blank → depth < text.body.indent := by
    intro hblank
    simp only [RawLine.isTextOf, Bool.or_eq_true, beq_iff_eq, decide_eq_true_eq] at htext
    rw [← hindent]
    exact htext.resolve_left hblank
  -- The column never falls short of zero.
  have hcolumn : (Line.ofText text.body).category ≠ .blank →
      (((Line.ofText text.body).indent + ((out.body.indent : Int) - depth)).toNat : Int) =
        text.body.indent + ((out.body.indent : Int) - depth) := by
    intro hblank
    have hlt := hdeep hblank
    rw [hindent]
    omega
  refine ⟨rfl, ?_, ?_, ?_, ?_⟩
  · intro hblank
    simp only [carry, if_pos hblank]
    rw [hread.spaces_append_content, Line.text_ofText]
  · simp only [carry, hread.indent_spaces_content]
    rw [← hcontent]
    exact List.drop_left' List.length_replicate
  · intro hblank
    simp only [carry, hread.indent_spaces_content, if_neg hblank, hcolumn hblank]
    omega
  · intro hblank
    have hlt := hdeep hblank
    have hmoved := hcolumn hblank
    simp only [carry, hread.indent_spaces_content, if_neg hblank]
    omega

theorem forall₂_carry {opener : RawLine} {out : OutLine} {depth : Nat} {texts : List RawLine}
    (hopener : opener.body.indent = depth) (htexts : ∀ text ∈ texts, text.isTextOf depth = true)
    (n : Nat) :
    List.Forall₂ (CarriedWith opener out) texts
      ((InputLine.ofLines n texts).map (carry ((out.body.indent : Int) - depth))) := by
  induction texts generalizing n with
  | nil => exact .nil
  | cons text texts ih =>
    obtain ⟨htext, htexts⟩ := List.forall_mem_cons.1 htexts
    exact .cons (carriedWith_carry hopener htext n) (ih htexts (n + 1))

theorem carriesBlocks_of_runLines {lines : List RawLine} {pass : Pass}
    (h : runLines registry lines = .ok pass) : CarriesBlocks lines pass := by
  rintro above texts below opener depth rfl houtside hopens htexts
  obtain ⟨final, hsteps, _, hcollect⟩ := runLines_ok h
  obtain ⟨_, hlines, _⟩ := collect_ok hcollect
  obtain ⟨state, hopener, hstate⟩ := steps_above hsteps
  obtain ⟨next, hstep, hrest⟩ := steps_cons_ok hstate
  let visit : Visit := ⟨state, ⟨1 + above.length, Line.ofText opener.body, opener.ending⟩,
    InputLine.ofLines (1 + above.length + 1) (texts ++ below)⟩
  have htext : visit.isText = false := by
    rw [Visit.isText_eq rfl, ← houtside]
    exact congrArg (fun opened : Option Nat => opened.any opener.isTextOf) hopener
  obtain ⟨hdepth, htrivia, ⟨before, hwritten⟩, hbody⟩ :=
    @Visit.written_of_opens registry visit next opener depth rfl htext hopens hstep
  have htop : ∀ line ∈ next.written.head?, line.trivia = false := by
    rw [hwritten]
    rintro line ⟨⟩
    exact htrivia
  obtain ⟨last, hlast, hcontent, hbelow⟩ := steps_texts hbody htop htexts hrest
  -- Nothing is written between the opener and its text any more.
  obtain ⟨after, hfinal⟩ := suffix_unwind hcontent
    (fun _ hinput => InputLine.isRead_of_mem_ofLines hinput) List.suffix_rfl hbelow
  refine ⟨before.reverse, visit.out registry, _, after.reverse, ?_, Nat.add_comm _ _, ?_,
    forall₂_carry hdepth htexts (1 + above.length + 1)⟩
  · rw [hlines, ← hfinal, hlast, hwritten]
    simp
  · rw [List.map_map, show above.length + 2 = 1 + above.length + 1 by omega]
    exact InputLine.map_number_ofLines _ _

/-- The text of block scalars has no part in the structure: another text leaves the rest of the
output as it is, and wherever the opener goes, the text goes with it. -/
theorem block_text_carried (registry : Registry) (lines lines' : List RawLine)
    (h : AlikeOutside none lines lines') :
    ((∃ failure, runLines registry lines = .error failure ∧
        runLines registry lines' = .error failure) ∨
      ∃ pass pass', runLines registry lines = .ok pass ∧ runLines registry lines' = .ok pass' ∧
        List.Forall₂ (fun out out' => out'.number = out.number ∧
          (lines[out.number - 1]? = lines'[out.number - 1]? → out' = out)) pass.lines pass'.lines) ∧
    (∀ pass, runLines registry lines = .ok pass → CarriesBlocks lines pass) ∧
    (∀ pass, runLines registry lines' = .ok pass → CarriesBlocks lines' pass) :=
  ⟨runLines_alike h, fun _ hrun => carriesBlocks_of_runLines hrun,
    fun _ hrun => carriesBlocks_of_runLines hrun⟩

/-- A task whose script is the given line, and a task after it. -/
def scriptOf (line : Text) : List RawLine :=
  [⟨"tasks:".toList, .lf⟩, ⟨"- shell: |".toList, .lf⟩, ⟨line, .lf⟩, ⟨"- name: x".toList, .lf⟩]

/-- A line of the script that looks like a task's list is no more than text. -/
theorem block_text_carried_scriptOf :
    let lines := scriptOf "    run".toList
    let lines' := scriptOf "  - tags: [x]".toList
    AlikeOutside none lines lines' ∧
      ∃ pass pass', runLines .standard lines = .ok pass ∧ runLines .standard lines' = .ok pass' ∧
        List.Forall₂ (fun out out' => out'.number = out.number ∧
          (lines[out.number - 1]? = lines'[out.number - 1]? → out' = out)) pass.lines pass'.lines ∧
        CarriesBlocks lines pass ∧ CarriesBlocks lines' pass' := by
  intro lines lines'
  have hopens : RawLine.opens? ⟨"- shell: |".toList, .lf⟩ = some 0 := by decide +kernel
  have halike : AlikeOutside none lines lines' := by
    refine .line rfl (.line (by decide +kernel) ?_)
    rw [hopens]
    exact .text (by decide +kernel) (by decide +kernel) rfl
      (.line (by decide +kernel) .nil)
  have hok : (runLines .standard lines).toOption.isSome = true := by decide +kernel
  obtain ⟨⟨failure, hfails, _⟩ | ⟨pass, pass', hrun, hrun', hlines⟩, hcarried, hcarried'⟩ :=
    block_text_carried .standard lines lines' halike
  · rw [hfails] at hok
    cases hok
  · exact ⟨halike, pass, pass', hrun, hrun', hlines, hcarried pass hrun, hcarried' pass' hrun'⟩

end Pass
end Reindent
