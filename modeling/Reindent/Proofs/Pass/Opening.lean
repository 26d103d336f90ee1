import Reindent.Pass.Run
import Reindent.Proofs.Line.Opener
import Mathlib.Data.Option.Basic

/-!
# Reindent.Proofs.Pass.Opening

The frame that a line opens.

* `State.Opens` — the three ways in which a line opens a frame.
* `opens_of_opening?` — there are no others.
* `not_isLeaf_of_opening?` — nothing opens in a leaf.
-/

namespace Reindent
namespace Pass
namespace State

variable {registry : Registry} {state : State} {line : Line} {frame : Frame}

/-- A line opens a frame for its key:
* by the role of the key;
* as a list, for a key without a role that has an item below it;
* for a module whose arguments stand at or left of it. -/
inductive Opens (state : State) (registry : Registry) (line : Line) (placement : Placement)
    (indent : Nat) (ahead : Option Line) : Frame → Prop
  | role {key : Text} {role : Role} {column base : Nat} : line.key = some key →
      line.openKeyColumns? indent = some (column, base) → registry.roleOf? key = some role →
      Opens state registry line placement indent ahead
        { role, key, inputIndent := column, baseIndent := base }
  | list {key : Text} {column base : Nat} {below : Line} : line.key = some key →
      line.openKeyColumns? indent = some (column, base) → ahead = some below →
      state.listsUnder registry column base below = true →
      Opens state registry line placement indent ahead
        { role := .listValue, key, inputIndent := min column below.indent, baseIndent := base }
  | inline {key : Text} {column base : Nat} {below : Line} : line.key = some key →
      line.openKeyColumns? indent = some (column, base) → placement.isMember = true →
      ahead = some below → state.continuesInlineArgs registry column below = true →
      Opens state registry line placement indent ahead
        (Frame.withInlineArgs
          { role := .moduleArgs, key, inputIndent := column, baseIndent := base } below.indent)

variable {placement : Placement} {indent : Nat} {ahead : Option Line}

theorem opens_of_opening?
    (h : state.opening? registry line placement indent ahead = some frame) :
    state.Opens registry line placement indent ahead frame := by
  simp only [opening?, Option.bind_eq_bind, Option.bind_eq_some_iff] at h
  obtain ⟨_, _, key, hkey, ⟨column, base⟩, hcolumns, found, hfound, hframe⟩ := h
  simp only [frameFor?] at hfound
  cases hrole : registry.roleOf? key with
  | none =>
    rw [hrole] at hfound
    obtain ⟨below, hbelow, rfl⟩ := Option.map_eq_some_iff.1 hfound
    obtain ⟨hahead, hlists⟩ := Option.filter_eq_some_iff.1 hbelow
    cases hframe
    exact .list hkey hcolumns hahead hlists
  | some role =>
    rw [hrole, Option.some.injEq] at hfound
    subst hfound
    split at hframe
    · rename_i hinline
      simp only [Bool.and_eq_true, beq_iff_eq] at hinline
      obtain ⟨rfl, hmember⟩ := hinline
      split at hframe
      · rename_i below hbelow
        obtain ⟨hahead, hcontinues⟩ := Option.filter_eq_some_iff.1 hbelow
        cases hframe
        exact .inline hkey hcolumns hmember hahead hcontinues
      · cases hframe
        exact .role hkey hcolumns hrole
    · cases hframe
      exact .role hkey hcolumns hrole

theorem not_isLeaf_of_opening?
    (h : state.opening? registry line placement indent ahead = some frame) {parent : Frame}
    (hparent : state.stack.head? = some parent) : parent.role.isLeaf = false := by
  simp only [opening?, Option.bind_eq_bind, Option.bind_eq_some_iff, guard] at h
  obtain ⟨_, hguard, _⟩ := h
  split at hguard
  · rename_i hleaf
    simpa [hparent] using hleaf
  · cases hguard

namespace Opens

variable (h : state.Opens registry line placement indent ahead frame)
include h

theorem fresh : frame.scope.entry = none ∧ frame.relocations = [] := by
  cases h <;> exact ⟨rfl, rfl⟩

theorem exists_columns :
    ∃ column, line.openKeyColumns? indent = some (column, frame.baseIndent) := by
  cases h with
  | role _ hcolumns _ => exact ⟨_, hcolumns⟩
  | list _ hcolumns _ _ => exact ⟨_, hcolumns⟩
  | inline _ hcolumns _ _ _ => exact ⟨_, hcolumns⟩

/-- A line does not open both a frame and a block scalar. -/
theorem not_blockScalar (hread : line.IsRead) : line.blockScalar = false := by
  obtain ⟨column, hcolumns⟩ := h.exists_columns
  cases hscalar : line.blockScalar with
  | false => rfl
  | true =>
    rw [Line.openKeyColumns?_of_blockScalar hread hscalar] at hcolumns
    cases hcolumns

theorem not_isInlinePair : line.isInlinePair = false := by
  obtain ⟨column, hcolumns⟩ := h.exists_columns
  cases hpair : line.isInlinePair with
  | false => rfl
  | true =>
    simp only [Line.isInlinePair, Bool.and_eq_true, beq_iff_eq] at hpair
    simp [Line.openKeyColumns?, Line.itemOpensKey, Line.isItem, hpair.1.1.1] at hcolumns

theorem indent_le_baseIndent : indent ≤ frame.baseIndent := by
  obtain ⟨column, hcolumns⟩ := h.exists_columns
  simp only [Line.openKeyColumns?] at hcolumns
  split at hcolumns
  · simp only [Option.some.injEq, Prod.mk.injEq] at hcolumns
    omega
  · split at hcolumns
    · simp only [Option.some.injEq, Prod.mk.injEq] at hcolumns
      omega
    · cases hcolumns

end Opens
end State
end Pass
end Reindent
