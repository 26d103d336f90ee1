import Reindent.Proofs.Frame.Overhang
import Reindent.Proofs.Line.Core
import Reindent.Proofs.Pass.Rearrangement

/-!
# Reindent.Proofs.Pass.Nesting

Where a pass writes the lines inside a frame.

* `forall_stack_step` — what holds of every open frame.
* `sound_of_mem_trailOf` — the columns of every open frame are in order, in every pass.
* `baseIndent_lt_column_iff` — a line is written to the right of the frame's column unless it
  overhangs.
* `Breaks.overhangs`  — a pass breaks off only at lines that overhang.
-/

namespace Reindent
namespace Pass

variable {registry : Registry} {P : Frame → Prop}

/-! ### What holds of every open frame -/

theorem forall_stack_iff {stack : Stack} :
    (∀ frame ∈ stack, P frame) ↔
      ∀ depth, 0 < depth → depth ≤ stack.length → stack.Around depth P := by
  constructor
  · intro h depth hpos hle
    induction stack with
    | nil => exact absurd hle (Nat.not_le.2 hpos)
    | cons frame rest ih =>
      rcases Nat.lt_or_eq_of_le hle with hlt | heq
      · have hrest := ih (fun f hf => h f (List.mem_cons_of_mem _ hf)) (Nat.le_of_lt_succ hlt)
        exact hrest.append [frame]
      · exact Stack.around_head heq.symm (h frame List.mem_cons_self)
  · intro h frame hframe
    obtain ⟨inner, outer, rfl⟩ := List.append_of_mem hframe
    have hle : outer.length + 1 ≤ (inner ++ frame :: outer).length := by
      rw [List.length_append, List.length_cons]
      omega
    obtain ⟨inner', frame', outer', hsame, hlength, hframe'⟩ :=
      h (outer.length + 1) (Nat.succ_pos _) hle
    have htails : (frame :: outer).length = (frame' :: outer').length := by
      rw [List.length_cons, List.length_cons, hlength]
    have hcons := (List.append_inj' hsame htails).2
    rw [List.cons.injEq] at hcons
    rw [hcons.1]
    exact hframe'

namespace State

variable {state : State} (hstable : Frame.Stable P) (h : ∀ frame ∈ state.stack, P frame)
include hstable h

theorem forall_stack_closeTop (atEnd : Bool) :
    ∀ frame ∈ (state.closeTop atEnd).stack, P frame := by
  rw [forall_stack_iff] at h ⊢
  intro depth hpos hle
  rw [closeTop_stack_length] at hle
  exact around_closeTop hstable (h depth hpos (by omega)) (by omega) atEnd

theorem forall_stack_closeUpTo (registry : Registry) (line : Line) (count : Nat) :
    ∀ frame ∈ (closeUpTo registry line count state).stack, P frame :=
  closeUpTo_keeps (P := fun closed => ∀ frame ∈ closed.stack, P frame)
    (fun _ h => forall_stack_closeTop hstable h false) registry line count h

theorem forall_stack_closeAtEnd (count : Nat) :
    ∀ frame ∈ (closeAtEnd count state).stack, P frame :=
  closeAtEnd_keeps (P := fun closed => ∀ frame ∈ closed.stack, P frame)
    (fun _ h => forall_stack_closeTop hstable h true) count h

end State

theorem State.forall_stack_record {state : State} {line : Line} (h : ∀ frame ∈ state.stack, P frame)
    (hrecorded : ∀ frame, P frame → P (frame.recorded line)) :
    ∀ frame ∈ (state.record line (state.place line)).stack, P frame := by
  cases hstack : state.stack with
  | nil => simp [record, scope, withScope, hstack]
  | cons frame rest =>
    rw [hstack] at h
    rw [stack_record_cons line hstack]
    intro f hf
    rcases List.mem_cons.1 hf with rfl | hf
    · exact hrecorded frame (h frame List.mem_cons_self)
    · exact h f (List.mem_cons_of_mem _ hf)

namespace Visit

variable {visit : Visit} {next : State}

theorem forall_stack_ready (hstable : Frame.Stable P) (h : ∀ frame ∈ visit.state.stack, P frame) :
    ∀ frame ∈ (visit.ready registry).stack, P frame := by
  have houtside : ∀ frame ∈ ({ visit.state with body := none } : State).stack, P frame := h
  exact State.forall_stack_closeUpTo hstable houtside registry visit.input.line _

/-- A step keeps what holds of every open frame, if it holds of the frame that the line opens and is
kept by the line that is placed. -/
theorem forall_stack_step (hstable : Frame.Stable P)
    (hnew : visit.isPlaced registry = true → ∀ frame, visit.opened? registry = some frame → P frame)
    (hrecorded : ∀ frame, P frame → P (frame.recorded visit.input.line))
    (h : ∀ frame ∈ visit.state.stack, P frame)
    (hstep : visit.state.step registry visit.input visit.rest = .ok next) :
    ∀ frame ∈ next.stack, P frame := by
  have hready : ∀ frame ∈ (visit.ready registry).stack, P frame := forall_stack_ready hstable h
  have houtcome := outcome_step registry visit
  rw [hstep] at houtcome
  generalize hresult : Except.ok next = result at houtcome
  cases houtcome with
  | text _ _ =>
    cases hresult
    rw [State.stack_writeBody]
    exact h
  | loose _ _ =>
    cases hresult
    rw [State.stack_passThrough]
    exact h
  | @relocated frame rest key events _ hstack =>
    cases hresult
    rw [hstack] at hready
    have hlifted : ((visit.ready registry).withEvents events).stack = frame :: rest := hstack
    simp only [State.liftOut, hlifted]
    intro f hf
    rcases List.mem_cons.1 hf with rfl | hf
    · exact hstable.relocations frame _ (hready frame List.mem_cons_self)
    · exact hready f (List.mem_cons_of_mem _ hf)
  | placed hplaced =>
    obtain ⟨events, hopened⟩ := step_eq_opened hplaced
    rw [hstep] at hopened
    have hsettled : ∀ frame ∈
        (((visit.ready registry).withEvents events).settled visit.input).stack, P frame := by
      rw [stack_settled]
      exact State.forall_stack_record hready hrecorded
    split at hopened
    · rename_i frame hframe
      rw [State.stack_openFrame hopened.symm]
      intro f hf
      rcases List.mem_cons.1 hf with rfl | hf
      · exact hnew hplaced f hframe
      · exact hsettled f hf
    · cases hopened
      exact hsettled

end Visit

theorem forall_stack_of_mem_trail (hstable : Frame.Stable P)
    (hempty : ∀ frame : Frame, frame.scope.entry = none → P frame) {inputs : List InputLine}
    (hrecorded : ∀ input ∈ inputs, ∀ frame, P frame → P (frame.recorded input.line))
    {state : State} (h : ∀ frame ∈ state.stack, P frame) {visit : Visit}
    (hvisit : visit ∈ trail registry state inputs) : ∀ frame ∈ visit.state.stack, P frame := by
  induction inputs generalizing state with
  | nil => cases hvisit
  | cons input rest ih =>
    simp only [trail, List.mem_cons] at hvisit
    rcases hvisit with rfl | hvisit
    · exact h
    · split at hvisit
      · rename_i next hstep
        refine ih (fun i hi => hrecorded i (List.mem_cons_of_mem _ hi)) ?_ hvisit
        exact @Visit.forall_stack_step registry P ⟨state, input, rest⟩ next hstable
          (fun _ frame hframe => hempty frame (State.opens_of_opening? hframe).fresh.1)
          (hrecorded input List.mem_cons_self) h hstep
      · cases hvisit

theorem forall_stack_steps (hstable : Frame.Stable P)
    (hempty : ∀ frame : Frame, frame.scope.entry = none → P frame) {inputs : List InputLine}
    (hrecorded : ∀ input ∈ inputs, ∀ frame, P frame → P (frame.recorded input.line))
    {state final : State} (h : ∀ frame ∈ state.stack, P frame)
    (hsteps : steps registry state inputs = .ok final) : ∀ frame ∈ final.stack, P frame := by
  induction inputs generalizing state with
  | nil =>
    cases hsteps
    exact h
  | cons input rest ih =>
    obtain ⟨next, hstep, hrest⟩ := steps_cons_ok hsteps
    refine ih (fun i hi => hrecorded i (List.mem_cons_of_mem _ hi)) ?_ hrest
    exact @Visit.forall_stack_step registry P ⟨state, input, rest⟩ next hstable
      (fun _ frame hframe => hempty frame (State.opens_of_opening? hframe).fresh.1)
      (hrecorded input List.mem_cons_self) h hstep

/-! ### Columns -/

/-- A line of the document is a dash alone. -/
def HasBareDash (text : Text) : Prop :=
  ['-'] ∈ text.contents

end Pass

theorem Line.trim_of_isBareDash {line : Line} (hread : line.IsRead)
    (h : line.isBareDash = true) : Text.trim line.text = ['-'] := by
  have hpayload : line.payload? = some [] := by simpa [isBareDash] using h
  have hitem : line.isItem = true := by
    cases hitem : line.isItem with
    | true => rfl
    | false =>
      rw [payload?_of_not_item hitem] at hpayload
      cases hpayload
  obtain ⟨rest, hcontent, _⟩ := hread.content_of_isItem hitem
  rw [payload?_eq hitem hcontent, Option.some.injEq] at hpayload
  have hstart : Text.trimStart ('-' :: rest) = '-' :: rest :=
    List.dropWhile_cons_of_neg (by decide)
  rw [← hread.spaces_append_content, Text.trim_spaces_append, hcontent, Text.trim, hstart,
    trimEnd_dash, trimEnd_eq_nil hpayload]

namespace Pass

variable {registry : Registry} {text : Text} {visit : Visit} {frame parent : Frame}

theorem hasBareDash_of_mem {input : InputLine} (h : input ∈ InputLine.ofLines 1 text.splitLines)
    (hdash : input.line.isBareDash = true) : HasBareDash text := by
  obtain ⟨i, raw, hraw, rfl⟩ := InputLine.raw_of_mem_ofLines h
  have htrim := Line.trim_of_isBareDash (Line.isRead_ofText raw.body) hdash
  rw [Line.text_ofText] at htrim
  have hline : raw.body ∈ text.lines := List.mem_map_of_mem (List.mem_of_getElem? hraw)
  refine List.mem_filter.2 ⟨?_, rfl⟩
  rw [← htrim]
  exact List.mem_map_of_mem hline

theorem sound_of_mem_trailOf (hvisit : visit ∈ trailOf registry text) :
    ∀ frame ∈ (visit.ready registry).stack, frame.Sound (HasBareDash text) := by
  refine Visit.forall_stack_ready (Frame.stable_sound _) ?_
  refine forall_stack_of_mem_trail (Frame.stable_sound _) ?_ ?_ ?_ hvisit
  · exact fun frame hentry => Frame.sound_of_entry hentry
  · intro input hinput frame hsound
    exact hsound.recorded (hasBareDash_of_mem hinput)
  · exact fun frame hframe => absurd hframe List.not_mem_nil

theorem sound_of_frame? (hvisit : visit ∈ trailOf registry text)
    (hframe : visit.frame? registry = some frame) : frame.Sound (HasBareDash text) :=
  sound_of_mem_trailOf hvisit frame (List.mem_of_mem_head? hframe)

namespace Visit

/-- The line hangs out of the frame around it on the left. -/
def Overhangs (visit : Visit) (frame : Frame) : Prop :=
  ∃ entry level, frame.Overhangs visit.input.line entry level

end Visit

/-- In a frame a line that gets a place is written to the right of the frame's column, unless it
overhangs. -/
theorem baseIndent_lt_column_iff (hvisit : visit ∈ trailOf registry text)
    (hplaced : visit.isPlaced registry = true) (hframe : visit.frame? registry = some frame)
    (hplacement : visit.placement registry ≠ .unchanged) :
    frame.baseIndent < visit.column registry ↔ ¬ visit.Overhangs frame := by
  obtain ⟨hstructural, hlifted⟩ := Visit.isPlaced_iff.1 hplaced
  obtain ⟨htext, hline⟩ := Visit.isStructural_iff.1 hstructural
  have hcolumn : visit.column registry = (visit.placement registry).indent visit.input.line := by
    simp [Visit.column, htext, hline, hlifted]
  rw [hcolumn]
  rw [Visit.placement_eq_place hframe] at hplacement ⊢
  exact (sound_of_frame? hvisit hframe).baseIndent_lt_iff hplacement

/-! ### Frames that are opened -/

namespace Visit

theorem placement_ne_of_opened? (hopened : visit.opened? registry = some frame)
    (haround : visit.frame? registry = some parent) : visit.placement registry ≠ .unchanged := by
  intro hunchanged
  have hrecorded : ((visit.ready registry).record visit.input.line
      (visit.placement registry)).stack.head? = some (parent.recorded visit.input.line) := by
    have haround' : (visit.ready registry).stack.head? = some parent := haround
    rw [Visit.placement, State.head?_record, haround', Option.map_some]
  have hinner : (parent.recorded visit.input.line).role.isLeaf = false :=
    State.not_isLeaf_of_opening? hopened hrecorded
  have hleaf : parent.role.isLeaf = false := hinner
  rw [placement_eq_place haround] at hunchanged
  have hplaces := Frame.places_place parent visit.input.line
  rw [hunchanged] at hplaces
  cases hplaces with
  | left _ _ htasks _ =>
    cases hrole : parent.role <;> simp [hrole, Role.holdsTasks, Role.isLeaf] at htasks hleaf

theorem Breaks.overhangs (h : visit.Breaks registry frame parent)
    (hvisit : visit ∈ trailOf registry text) : visit.Overhangs parent := by
  have hplacement := placement_ne_of_opened? h.opened h.around
  have hcolumn := (State.opens_of_opening? h.opened).indent_le_baseIndent
  rw [placement_eq_place h.around] at hplacement hcolumn
  have hiff := (sound_of_frame? hvisit h.around).baseIndent_lt_iff hplacement
  by_contra hfits
  have hlt := hiff.2 hfits
  have horder := h.order
  omega

end Visit

/-- A pass reaches the end of the document unless a line that overhangs opens a frame at or left of
the column of the frame around it. -/
theorem exists_error_run_iff :
    (∃ failure, run registry text = .error failure) ↔
      ∃ visit ∈ trailOf registry text, ∃ frame parent,
        visit.Breaks registry frame parent ∧ visit.Overhangs parent := by
  have hsteps : (∃ failure, run registry text = .error failure) ↔
      ∃ failure, steps registry {} (InputLine.ofLines 1 text.splitLines) = .error failure := by
    cases h : steps registry {} (InputLine.ofLines 1 text.splitLines) with
    | ok final =>
      obtain ⟨pass, hrun, _⟩ := rearranges_of_steps h
      simp [hrun]
    | error failure => simp [run, runLines, h]
  rw [hsteps, exists_error_steps_iff]
  constructor
  · rintro ⟨visit, hvisit, frame, parent, hbreaks⟩
    exact ⟨visit, hvisit, frame, parent, hbreaks, hbreaks.overhangs hvisit⟩
  · rintro ⟨visit, hvisit, frame, parent, hbreaks, _⟩
    exact ⟨visit, hvisit, frame, parent, hbreaks⟩

theorem run_of_not_hasBareDash (h : ¬ HasBareDash text) :
    ∃ pass, run registry text = .ok pass := by
  cases hrun : run registry text with
  | ok pass => exact ⟨pass, rfl⟩
  | error failure =>
    obtain ⟨visit, hvisit, frame, parent, hbreaks, entry, level, hoverhangs⟩ :=
      exists_error_run_iff.1 ⟨failure, hrun⟩
    exact absurd (Frame.bare_of_overhangs (sound_of_frame? hvisit hbreaks.around) hoverhangs) h

end Pass
end Reindent
