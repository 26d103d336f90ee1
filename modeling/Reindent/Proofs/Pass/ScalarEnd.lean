import Reindent.Proofs.Pass.BlockText
import Reindent.Proofs.Pass.Order
import Reindent.Proofs.Pass.Siblings

/-!
# Reindent.Proofs.Pass.ScalarEnd

Where the text of a block scalar ends.

* `Visit.isBeyond` — the line is blank, or to the right of a column.
* `TextEndsAt`     — the text below a line is what is beyond a column.
* `block_scalar_ends_iff` — the text ends at the opener's own column, which is that of its key
  unless the key follows a dash; what ends it is met in the frame that the opener left.
* `not_block_scalar_ends` — a key below `- shell: |` that reads as text of the script.
-/

namespace Reindent

theorem takeWhile_eq_iff {α : Type} {weak strong : α → Bool} {list : List α}
    (h : ∀ a, strong a = true → weak a = true) :
    list.takeWhile weak = list.takeWhile strong ↔
      ∀ a ∈ (list.dropWhile strong).head?, weak a = false := by
  induction list with
  | nil => simp
  | cons a rest ih =>
    cases hstrong : strong a with
    | true => simp [hstrong, h a hstrong, ih]
    | false => cases hweak : weak a <;> simp [hstrong, hweak]

namespace Pass

variable {registry : Registry}

namespace Visit

variable {visit : Visit}

/-- The line is blank, or to the right of the given column. -/
def isBeyond (column : Nat) (visit : Visit) : Bool :=
  visit.input.line.category == .blank || visit.input.line.indent > column

theorem isBeyond_of_le {column column' : Nat} (hle : column ≤ column')
    (h : visit.isBeyond column' = true) : visit.isBeyond column = true := by
  simp only [isBeyond, Bool.or_eq_true, decide_eq_true_eq] at h ⊢
  exact h.imp_right (Nat.lt_of_le_of_lt hle)

theorem isText_of_body {body : ScalarBody} (h : visit.state.body = some body) :
    visit.isText = visit.isBeyond body.opener := by
  rw [isText, h]
  rfl

theorem step_of_isText (h : visit.isText = true) :
    ∃ next, visit.state.step registry visit.input visit.rest = .ok next ∧
      next.body = visit.state.body ∧ next.stack = visit.state.stack ∧
      next.root = visit.state.root := by
  obtain ⟨body, hbody, hcontinues⟩ := Option.any_eq_true _ _ |>.1 h
  exact ⟨_, State.step_of_text registry visit.input visit.rest hbody hcontinues,
    State.body_writeBody _ _ _, State.stack_writeBody _ _ _, State.root_writeBody _ _ _⟩

end Visit

/-! ### The text below an opener -/

/-- Of the lines below an opener, those are text that are beyond the given column, up to the first
one that is not. -/
def TextEndsAt (column : Nat) (below : List Visit) : Prop :=
  below.takeWhile Visit.isText = below.takeWhile (Visit.isBeyond column)

instance (column : Nat) (below : List Visit) : Decidable (TextEndsAt column below) :=
  inferInstanceAs (Decidable (_ = _))

section Below

variable {state : State} {body : ScalarBody}

theorem textEndsAt_of_body (hbody : state.body = some body) (inputs : List InputLine) :
    TextEndsAt body.opener (trail registry state inputs) := by
  rw [TextEndsAt]
  induction inputs generalizing state with
  | nil => rfl
  | cons input rest ih =>
    have htext := @Visit.isText_of_body ⟨state, input, rest⟩ body hbody
    simp only [trail, List.takeWhile_cons, htext]
    split
    · rename_i hbeyond
      obtain ⟨next, hstep, hnext, _⟩ := @Visit.step_of_isText registry _ (htext.trans hbeyond)
      simp only at hstep
      rw [hstep, ih (hnext.trans hbody)]
    · rfl

theorem outside_of_body (hbody : state.body = some body) {inputs : List InputLine} {ender : Visit}
    (hender : ((trail registry state inputs).dropWhile Visit.isText).head? = some ender) :
    ender.state.stack = state.stack ∧ ender.state.root = state.root ∧ ender.isText = false := by
  induction inputs generalizing state with
  | nil => cases hender
  | cons input rest ih =>
    simp only [trail, List.dropWhile_cons] at hender
    split at hender
    · rename_i htext
      obtain ⟨next, hstep, hnext, hstack, hroot⟩ := @Visit.step_of_isText registry _ htext
      simp only at hstep hnext hstack hroot
      rw [hstep] at hender
      obtain ⟨hstack', hroot', hends⟩ := ih (hnext.trans hbody) hender
      exact ⟨hstack'.trans hstack, hroot'.trans hroot, hends⟩
    · rename_i htext
      obtain rfl := Option.some.inj hender
      exact ⟨rfl, rfl, Bool.eq_false_iff.2 htext⟩

end Below

theorem Visit.step_of_opener {visit : Visit} (hread : visit.input.line.IsRead)
    (hstructural : visit.isStructural = true) (hscalar : visit.input.line.blockScalar = true) :
    ∃ next, visit.state.step registry visit.input visit.rest = .ok next ∧
      next.body.map ScalarBody.opener = some visit.input.line.indent := by
  cases hstep : visit.state.step registry visit.input visit.rest with
  | ok next =>
    refine ⟨next, rfl, ?_⟩
    have htext := (isStructural_iff.1 hstructural).1
    rw [body_step hstep, htext, if_neg Bool.false_ne_true, hstructural, hscalar, Bool.and_self,
      if_pos rfl, Option.map_some]
  | error failure =>
    obtain ⟨frame, parent, hbreaks, _⟩ := breaks_of_error_step hstep
    have hkey := (State.opens_of_opening? hbreaks.opened).not_blockScalar hread
    rw [hscalar] at hkey
    cases hkey

/-- The text of a block scalar ends at the first line with content at or left of its opener. So it
ends at the column of the opener's key exactly if the first such line at or left of the key is not
to the right of the opener; below a plain `key: |` it always does. The line that ends it takes part
in the structure as any other line, in the frames and with the children that the opener left. -/
theorem block_scalar_ends_iff {text : Text} {before after : List Visit} {opener : Visit}
    (htrail : trailOf registry text = before ++ opener :: after)
    (hopener : opener.isStructural = true) (hscalar : opener.input.line.blockScalar = true) :
    TextEndsAt opener.input.line.indent after ∧
      (TextEndsAt (opener.input.line.keyColumn opener.input.line.indent) after ↔
        ∀ first ∈ (after.dropWhile (Visit.isBeyond
          (opener.input.line.keyColumn opener.input.line.indent))).head?,
          first.input.line.indent ≤ opener.input.line.indent) ∧
      (opener.input.line.isItem = false →
        TextEndsAt (opener.input.line.keyColumn opener.input.line.indent) after) ∧
      ∃ next, opener.state.step registry opener.input opener.rest = .ok next ∧
        ∀ ender ∈ (after.dropWhile Visit.isText).head?,
          ender.state.stack = next.stack ∧ ender.state.root = next.root ∧
          (ender.input.line.isStructural = true →
            ender.isPlaced registry = true ∨ ender.isRelocated registry = true) := by
  have hmem : opener ∈ trailOf registry text := by
    rw [htrail]
    simp
  have hread := InputLine.isRead_of_mem_ofLines (input_of_mem_trail hmem)
  obtain ⟨next, hstep, hbody⟩ := @Visit.step_of_opener registry opener hread hopener hscalar
  obtain ⟨body, hbody, hcolumn⟩ := Option.map_eq_some_iff.1 hbody
  have hbelow := below_of_trail htrail
  rw [hstep] at hbelow
  simp only at hbelow
  have hends : TextEndsAt opener.input.line.indent after := by
    rw [hbelow, ← hcolumn]
    exact textEndsAt_of_body hbody opener.rest
  refine ⟨hends, ?_, ?_, next, hstep, ?_⟩
  · rw [TextEndsAt, show after.takeWhile Visit.isText = _ from hends, takeWhile_eq_iff fun _ =>
      Visit.isBeyond_of_le (opener.input.line.le_keyColumn opener.input.line.indent)]
    refine forall₂_congr fun first hfirst => ?_
    -- The line is not blank, since it is not beyond the key.
    have hcontent : (first.input.line.category == .blank) = false := by
      have hnot := List.head?_dropWhile_not
        (Visit.isBeyond (opener.input.line.keyColumn opener.input.line.indent)) after
      rw [Option.mem_def.1 hfirst] at hnot
      simp only [Visit.isBeyond, Bool.or_eq_false_iff] at hnot
      exact hnot.1
    rw [Visit.isBeyond, hcontent, Bool.false_or, decide_eq_false_iff_not, Nat.not_lt]
  · intro hother
    rw [Line.keyColumn_of_not_isItem hother]
    exact hends
  · intro ender hender
    rw [hbelow] at hender
    obtain ⟨hstack, hroot, htext⟩ := outside_of_body hbody hender
    exact ⟨hstack, hroot, fun hline =>
      Visit.isPlaced_or_isRelocated (Visit.isStructural_iff.2 ⟨htext, hline⟩)⟩

/-- A task with a script, and its tags below. -/
def scriptThenTags : Text :=
  "- name: t\n  shell: |\n    run\n  tags:\n  - a\n".toList

theorem block_scalar_ends_scriptThenTags :
    ∃ (name opener : Visit) (after : List Visit),
      trailOf .standard scriptThenTags = [name] ++ opener :: after ∧
        opener.isStructural = true ∧ opener.input.line.blockScalar = true ∧
        TextEndsAt (opener.input.line.keyColumn opener.input.line.indent) after ∧
        ∃ next ender, opener.state.step .standard opener.input opener.rest = .ok next ∧
          (after.dropWhile Visit.isText).head? = some ender ∧ ender.input.number = 4 ∧
          ender.state.root = next.root ∧
          (ender.isPlaced .standard = true ∨ ender.isRelocated .standard = true) := by
  have hfacts : ofFive (fun _ opener script tags item =>
      opener.isStructural && opener.input.line.blockScalar && !opener.input.line.isItem &&
        (([script, tags, item].dropWhile Visit.isText).head? == some tags) &&
        tags.input.number == 4 && tags.input.line.isStructural)
      (trailOf .standard scriptThenTags) = true := by decide +kernel
  obtain ⟨name, opener, script, tags, item, htrail, hfacts⟩ := exists_of_ofFive hfacts
  simp only [Bool.and_eq_true, beq_iff_eq, Bool.not_eq_true'] at hfacts
  obtain ⟨⟨⟨⟨⟨hopener, hscalar⟩, hother⟩, hender⟩, hnumber⟩, hline⟩ := hfacts
  obtain ⟨_, _, hends, next, hstep, hbelow⟩ := @block_scalar_ends_iff .standard scriptThenTags
    [name] [script, tags, item] opener htrail hopener hscalar
  obtain ⟨_, hroot, htakes⟩ := hbelow tags hender
  exact ⟨name, opener, _, htrail, hopener, hscalar, hends hother, next, tags, hstep, hender,
    hnumber, hroot, htakes hline⟩

/-- A task that starts with its script, and its tags below. -/
def scriptFirst : Text :=
  "tasks:\n  - shell: |\n      echo\n    tags:\n    - a\n".toList

/-- A key of the task below `- shell: |` is to the right of the dash, and so it reads as text of the
script. -/
theorem not_block_scalar_ends :
    ¬ ∀ (registry : Registry) (text : Text) (before after : List Visit) (opener : Visit),
        trailOf registry text = before ++ opener :: after → opener.isStructural = true →
        opener.input.line.blockScalar = true → opener.input.line.key.isSome = true →
        TextEndsAt (opener.input.line.keyColumn opener.input.line.indent) after := by
  intro hends
  have hfacts : ofFive (fun _ opener script tags item =>
      opener.isStructural && opener.input.line.blockScalar && opener.input.line.key.isSome &&
        !decide (TextEndsAt (opener.input.line.keyColumn opener.input.line.indent)
          [script, tags, item])) (trailOf .standard scriptFirst) = true := by decide +kernel
  obtain ⟨play, opener, script, tags, item, htrail, hfacts⟩ := exists_of_ofFive hfacts
  simp only [Bool.and_eq_true, Bool.not_eq_true', decide_eq_false_iff_not] at hfacts
  obtain ⟨⟨⟨hopener, hscalar⟩, hkey⟩, hbeyond⟩ := hfacts
  exact hbeyond (hends .standard scriptFirst [play] [script, tags, item] opener htrail hopener
    hscalar hkey)

end Pass
end Reindent
