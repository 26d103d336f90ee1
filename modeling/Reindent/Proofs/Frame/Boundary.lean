import Reindent.Proofs.Line.Core
import Reindent.Proofs.Pass.Conservation

/-!
# Reindent.Proofs.Frame.Boundary

Which frame stands in which, and which of them a line ends.

* `Frame.cleared` — the frame without the lines that wait in it; what ends it does not change.
* `Frame.Inside`  — a frame that is opened in another one.
* `Frame.Tidy`    — where lines wait: at items, and in leaves.
* `Inside.not_closesAt` — a line that does not end a frame does not end the one around it.
* `Registry.Confined` — attributes are lifted out of leaves only, in every registry that extends
  the standard one.
-/

namespace Reindent

/-! ### Frames without what waits in them -/

def Entry.cleared (entry : Entry) : Entry :=
  { entry with pending := [] }

def Scope.cleared (scope : Scope) : Scope :=
  { scope with entry := scope.entry.map Entry.cleared }

def Frame.cleared (frame : Frame) : Frame :=
  { frame with scope := frame.scope.cleared, relocations := [] }

theorem Scope.cleared_append (scope : Scope) (lines : List Relocation) :
    (scope.append lines).cleared = scope.cleared := by
  cases h : scope.entry <;> simp [cleared, append, h, Entry.cleared]

theorem Frame.closesAt_cleared (registry : Registry) (frame : Frame) (line : Line) :
    frame.cleared.closesAt registry line = frame.closesAt registry line := rfl

theorem Stack.map_cleared_handInnermost? {lines : List Relocation} {stack stack' : Stack}
    (h : handInnermost? lines stack = some stack') :
    stack'.map Frame.cleared = stack.map Frame.cleared := by
  induction stack generalizing stack' with
  | nil => cases h
  | cons frame rest ih =>
    by_cases hitem : frame.scope.item?.isSome
    · simp only [handInnermost?, hitem, if_true, Option.some.injEq] at h
      subst h
      simp [Frame.cleared, Scope.cleared_append]
    · simp only [handInnermost?, hitem, Bool.false_eq_true, if_false] at h
      obtain ⟨rest', hrest, rfl⟩ := Option.map_eq_some_iff.1 h
      rw [List.map_cons, List.map_cons, ih hrest]

/-! ### Where lines wait -/

/-- Lines wait for the ends of items only. -/
def Scope.Tidy (scope : Scope) : Prop :=
  ∀ entry, scope.entry = some entry → entry.item = false → entry.pending = []

structure Frame.Tidy (frame : Frame) : Prop where
  scope : frame.scope.Tidy
  /-- Lines wait for the end of a leaf only. -/
  relocations : frame.role.isLeaf = false → frame.relocations = []
  /-- No line waits for the end of an item in a leaf. -/
  leaf : frame.role.isLeaf = true → frame.scope.waiting = []
  inline : frame.inlineArgs = true → frame.role.isLeaf = true

theorem Scope.tidy_of_waiting {scope : Scope} (h : scope.waiting = []) : scope.Tidy := by
  intro entry hentry _
  rw [waiting, hentry] at h
  exact h

theorem Scope.waiting_of_item? {scope : Scope} {item : Entry} (h : scope.item? = some item) :
    scope.waiting = item.pending := by
  rw [waiting, (Option.filter_eq_some_iff.1 h).1, Option.elim_some]

/-- A child that is no item holds no lines. -/
theorem Scope.Tidy.waiting_eq_nil {scope : Scope} (h : scope.Tidy)
    (hitem : ¬ scope.item?.isSome) : scope.waiting = [] := by
  cases hentry : scope.entry with
  | none => rw [Scope.waiting, hentry, Option.elim_none]
  | some entry =>
    have hother : entry.item = false := by
      simpa [Scope.item?, hentry, Option.filter] using hitem
    rw [Scope.waiting, hentry, Option.elim_some, h entry hentry hother]

theorem Scope.tidy_append {scope : Scope} (hitem : scope.item?.isSome = true)
    (lines : List Relocation) : (scope.append lines).Tidy := by
  intro entry hentry hother
  cases hbefore : scope.entry with
  | none => simp [Scope.append, hbefore] at hentry
  | some before =>
    simp only [Scope.append, hbefore, Option.map_some, Option.some.injEq] at hentry
    subst hentry
    have hsome : before.item = false := hother
    simp [item?, hbefore, hsome] at hitem

theorem Scope.Tidy.record {scope : Scope} (h : scope.Tidy) (line : Line) (placement : Placement) :
    (scope.record line placement).1.Tidy := by
  cases placement with
  | entry indent =>
    intro entry hentry _
    simp only [Scope.record, Option.some.injEq] at hentry
    rw [← hentry, Entry.pending_ofLine]
  | member indent =>
    intro entry hentry hother
    cases hbefore : scope.entry with
    | none => simp [Scope.record, hbefore] at hentry
    | some before =>
      simp only [Scope.record, hbefore, Option.map_some, Option.some.injEq] at hentry
      subst hentry
      exact h before hbefore hother
  | carried indent => exact h
  | unchanged => exact h

theorem Scope.waiting_record {scope : Scope} (h : scope.waiting = []) (line : Line)
    (placement : Placement) : (scope.record line placement).1.waiting = [] := by
  have hsplit := Pass.State.waiting_record scope line placement
  rw [h, List.append_eq_nil_iff] at hsplit
  exact hsplit.2

/-! ### Frames in frames -/

/-- `inner` stands in `outer`. Its children can stand as far left as those of `outer` in the input,
but never in the output; arguments that stand left of their module are still right of `outer`. -/
structure Frame.Inside (inner outer : Frame) : Prop where
  base : outer.baseIndent < inner.baseIndent
  input : outer.inputIndent ≤ inner.inputIndent
  inline : inner.inlineArgs = true → outer.inputIndent < inner.inputIndent
  leaf : outer.role.isLeaf = false

variable {registry : Registry} {inner outer : Frame} {line : Line}

/-- What a line that does not end a frame looks like, if the frame is no leaf. -/
theorem Frame.closesAt_eq_false_iff (hleaf : outer.role.isLeaf = false)
    (hinline : outer.inlineArgs = true → outer.role.isLeaf = true) :
    outer.closesAt registry line = false ↔
      outer.inputIndent < line.indent ∨
        line.indent = outer.inputIndent ∧ line.isItem = true := by
  have hitems : outer.role.holdsItems = true := by
    cases hrole : outer.role <;> simp [hrole, Role.isLeaf] at hleaf <;> rfl
  have hplain : outer.inlineArgs = false := by
    cases h : outer.inlineArgs with
    | true => rw [hinline h] at hleaf; cases hleaf
    | false => rfl
  simp only [closesAt, hitems, hplain]
  split
  · rename_i hne
    simp only [decide_eq_false_iff_not]
    omega
  · rename_i heq
    cases line.isItem <;> simp <;> omega

/-- A line that does not end a frame does not end the frame around it. -/
theorem Frame.Inside.not_closesAt (h : inner.Inside outer)
    (hinline : outer.inlineArgs = true → outer.role.isLeaf = true)
    (hopen : inner.closesAt registry line = false) : outer.closesAt registry line = false := by
  rw [closesAt_eq_false_iff h.leaf hinline]
  have hinput := h.input
  simp only [closesAt] at hopen
  split at hopen
  · simp only [decide_eq_false_iff_not] at hopen
    omega
  · rename_i heq
    cases hitem : line.isItem with
    | true =>
      rcases Nat.lt_or_eq_of_le hinput with hlt | hsame
      · exact .inl (by omega)
      · exact .inr ⟨by omega, rfl⟩
    | false =>
      cases hargs : inner.inlineArgs with
      | true =>
        have hleft := h.inline hargs
        omega
      | false => simp [hitem, hargs] at hopen

/-! ### Attributes -/

namespace Registry

/-- Attributes are lifted out of leaves only. -/
def Confined (registry : Registry) : Prop :=
  ∀ entry ∈ registry.attributes, ∀ role ∈ entry.2, role.isLeaf = true

theorem confined_addAttribute (h : registry.Confined) (key : Text) :
    (registry.addAttribute key).Confined := by
  simp only [addAttribute]
  split
  · exact h
  · intro entry hentry
    rcases List.mem_append.1 hentry with hentry | hentry
    · exact h entry hentry
    · intro role hrole
      rw [List.mem_singleton.1 hentry] at hrole
      rw [List.mem_singleton.1 hrole]
      rfl

theorem confined_extended (extra : RegistryExtension) : (extended extra).Confined := by
  simp only [extended]
  generalize hbase : { standard with
    sections := standard.sections ++ extra.sections
    blocks := standard.blocks ++ extra.blocks
    lists := standard.lists ++ extra.lists
    modules := standard.modules ++ extra.modules
    descriptive := standard.descriptive ++ extra.descriptive } = base
  have hconfined : base.Confined := by
    subst hbase
    simp only [Confined, standard]
    decide
  clear hbase
  induction extra.attributes generalizing base with
  | nil => exact hconfined
  | cons key keys ih => exact ih _ (confined_addAttribute hconfined key)

theorem Confined.isLeaf (h : registry.Confined) {key frameKey : Text} {role : Role}
    (hstranded : registry.isStranded key role frameKey = true) : role.isLeaf = true := by
  simp only [isStranded] at hstranded
  split at hstranded
  · cases hstranded
  · rename_i roles hlookup
    simp only [Bool.and_eq_true, List.contains_iff_mem] at hstranded
    obtain ⟨before, after, hattributes, _⟩ := List.lookup_eq_some_iff.1 hlookup
    refine h (key, roles) ?_ role hstranded.1
    rw [hattributes]
    simp

/-- The standard registry is the extension by nothing. -/
example : extended {} = standard := rfl

end Registry
end Reindent
