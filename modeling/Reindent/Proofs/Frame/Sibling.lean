import Reindent.Placement
import Mathlib.Tactic.Basic

/-!
# Reindent.Proofs.Frame.Sibling

Where a frame puts the next line at the column of a line that it has placed.

* `Frame.recorded` — the frame after a line has been placed in it.
* `Frame.Leads`    — the next item becomes a direct child, as the last item did.
* `Frame.Awaits`   — any other line: the six ways to place it, each with what has to hold of the
  frame for as long as the column is to stay.
* `leads_recorded`, `awaits_recorded` — placing a line establishes the one or the other.
* `Leads.recorded`, `Awaits.recorded` — lines that are no less deep keep it, unless one of them
  becomes a direct child or an own key of the item around.

None of this depends on the lines that wait in the frame (`Frame.Stable`).
-/

namespace Reindent
namespace Placement

def isEntry : Placement → Bool
  | entry _ => true
  | _ => false

theorem isEntry_iff {placement : Placement} :
    placement.isEntry = true ↔ ∃ indent, placement = .entry indent := by
  cases placement <;> simp [isEntry]

end Placement

/-- Columns stay outside frames. -/
theorem placeAtRoot_indent (scope : Scope) (line : Line) :
    (placeAtRoot scope line).indent line = line.indent := by
  simp only [placeAtRoot]
  split
  · split
    · split <;> rfl
    · rfl
  · rfl

/-- The line is placed as an item of the frame. -/
def Frame.takesItem (frame : Frame) (line : Line) : Bool :=
  line.isItem && frame.role.holdsItems

/-! ### The rules of placement -/

/-- The rules by which `line` gets its place in `frame`. Exactly one of them applies. -/
inductive Frame.Places (frame : Frame) (line : Line) : Placement → Prop
  | firstItem : frame.takesItem line = true → frame.scope.item? = none →
      Places frame line (.entry frame.childIndent)
  | nextItem {entry : Entry} : frame.takesItem line = true → frame.scope.item? = some entry →
      line.indent ≤ entry.input ∨ frame.scope.childInput = some line.indent →
      Places frame line (.entry frame.childIndent)
  | nestedItem {entry : Entry} : frame.takesItem line = true → frame.scope.item? = some entry →
      entry.input < line.indent → frame.scope.childInput ≠ some line.indent →
      Places frame line (.carried ((entry.anchorFor line.indent true).carry line.indent))
  | ownKey {entry : Entry} : frame.takesItem line = false → frame.scope.item? = some entry →
      frame.role.holdsTasks = true ∨ entry.input < line.indent →
      line.indent ≤ entry.levelFor line.indent →
      Places frame line (.member entry.memberIndent)
  | deep {entry : Entry} : frame.takesItem line = false → frame.scope.item? = some entry →
      frame.role.holdsTasks = true ∨ entry.input < line.indent →
      entry.levelFor line.indent < line.indent →
      Places frame line (.carried ((entry.anchorFor line.indent false).carry line.indent))
  | left {entry : Entry} : frame.takesItem line = false → frame.scope.item? = some entry →
      frame.role.holdsTasks = false → line.indent ≤ entry.input → Places frame line .unchanged
  | child : frame.takesItem line = false → frame.scope.item? = none →
      line.indent ≤ frame.scope.childInput.getD line.indent →
      Places frame line (.entry frame.childIndent)
  | below {column : Nat} : frame.takesItem line = false → frame.scope.item? = none →
      frame.scope.childInput = some column → column < line.indent →
      Places frame line (.carried ((frame.anchorFor line.indent column).carry line.indent))

namespace Frame

variable {frame : Frame} {line : Line} {entry : Entry} {placement : Placement}

theorem Places.place_eq (h : frame.Places line placement) : place frame line = placement := by
  cases h with
  | firstItem htakes hitem =>
    rw [takesItem] at htakes
    simp [place, htakes, hitem]
  | nextItem htakes hitem hcolumn =>
    rw [takesItem] at htakes
    simp [place, htakes, hitem, hcolumn]
  | nestedItem htakes hitem hdeep hchild =>
    rw [takesItem] at htakes
    simp [place, htakes, hitem, hchild, Nat.not_le.2 hdeep]
  | ownKey htakes hitem hinside hlevel =>
    rw [takesItem] at htakes
    simp [place, htakes, hitem, hinside, Entry.placeInside, hlevel]
  | deep htakes hitem hinside hlevel =>
    rw [takesItem] at htakes
    simp [place, htakes, hitem, hinside, Entry.placeInside, Nat.not_le.2 hlevel]
  | left htakes hitem htasks hleft =>
    rw [takesItem] at htakes
    simp [place, htakes, hitem, htasks, Nat.not_lt.2 hleft]
  | child htakes hitem hlevel =>
    rw [takesItem] at htakes
    simp [place, htakes, hitem, hlevel]
  | below htakes hitem hchild hdeep =>
    rw [takesItem] at htakes
    simp [place, htakes, hitem, hchild, Nat.not_le.2 hdeep]

theorem exists_places (frame : Frame) (line : Line) : ∃ placement, frame.Places line placement := by
  cases htakes : frame.takesItem line with
  | true =>
    cases hitem : frame.scope.item? with
    | none => exact ⟨_, .firstItem htakes hitem⟩
    | some entry =>
      by_cases hcolumn : line.indent ≤ entry.input ∨ frame.scope.childInput = some line.indent
      · exact ⟨_, .nextItem htakes hitem hcolumn⟩
      · obtain ⟨hdeep, hchild⟩ := not_or.1 hcolumn
        exact ⟨_, .nestedItem htakes hitem (Nat.not_le.1 hdeep) hchild⟩
  | false =>
    cases hitem : frame.scope.item? with
    | none =>
      by_cases hlevel : line.indent ≤ frame.scope.childInput.getD line.indent
      · exact ⟨_, .child htakes hitem hlevel⟩
      · cases hchild : frame.scope.childInput with
        | none => simp [hchild] at hlevel
        | some column =>
          rw [hchild, Option.getD_some] at hlevel
          exact ⟨_, .below htakes hitem hchild (Nat.not_le.1 hlevel)⟩
    | some entry =>
      by_cases hinside : frame.role.holdsTasks = true ∨ entry.input < line.indent
      · by_cases hlevel : line.indent ≤ entry.levelFor line.indent
        · exact ⟨_, .ownKey htakes hitem hinside hlevel⟩
        · exact ⟨_, .deep htakes hitem hinside (Nat.not_le.1 hlevel)⟩
      · obtain ⟨htasks, hleft⟩ := not_or.1 hinside
        exact ⟨_, .left htakes hitem (Bool.eq_false_iff.2 htasks) (Nat.not_lt.1 hleft)⟩

theorem places_place (frame : Frame) (line : Line) : frame.Places line (place frame line) := by
  obtain ⟨placement, hplaces⟩ := exists_places frame line
  rw [hplaces.place_eq]
  exact hplaces

/-! ### What a placement does to the frame -/

def recorded (frame : Frame) (line : Line) : Frame :=
  { frame with scope := (frame.scope.record line (place frame line)).1 }

theorem recorded_eq_self (hentry : (place frame line).isEntry = false)
    (hmember : (place frame line).isMember = false) : frame.recorded line = frame := by
  unfold recorded
  cases hplace : place frame line with
  | entry indent => simp [hplace, Placement.isEntry] at hentry
  | member indent => simp [hplace, Placement.isMember] at hmember
  | carried indent => rfl
  | unchanged => rfl

theorem input_ofLine (line : Line) (output : Nat) :
    (Entry.ofLine line output).input = line.indent := by
  simp only [Entry.ofLine]
  split <;> rfl

theorem item_ofLine (line : Line) (output : Nat) :
    (Entry.ofLine line output).item = line.isItem := by
  simp only [Entry.ofLine]
  split <;> rfl

theorem item?_recorded_entry {indent : Nat} (hplace : place frame line = .entry indent) :
    (frame.recorded line).scope.item? =
      if line.isItem then some (Entry.ofLine line indent) else none := by
  simp only [recorded, hplace, Scope.record, Scope.item?, Option.filter, item_ofLine]

theorem childInput_recorded_entry {indent : Nat} (hplace : place frame line = .entry indent) :
    (frame.recorded line).scope.childInput = some (frame.scope.childInput.getD line.indent) := by
  simp only [recorded, hplace, Scope.record]

theorem item?_recorded_member {indent : Nat} (hplace : place frame line = .member indent) :
    (frame.recorded line).scope.item? =
      frame.scope.item?.map fun entry => entry.addMember line indent := by
  cases hentry : frame.scope.entry with
  | none => simp [recorded, hplace, Scope.record, Scope.item?, hentry]
  | some entry =>
    simp only [recorded, hplace, Scope.record, Scope.item?, hentry, Option.map_some, Option.filter,
      Entry.addMember]
    split <;> rfl

/-! ### The next line at a column -/

/-- The next item at the input column `i` will be a direct child. -/
def Leads (frame : Frame) (i column : Nat) : Prop :=
  frame.role.holdsItems = true ∧ column = frame.childIndent ∧
    ∃ entry, frame.scope.item? = some entry ∧ i ≤ entry.input

/-- The next line at the input column `i` will be written at `column`. -/
inductive Awaits (frame : Frame) (item : Bool) (i : Nat) (column : Nat) : Prop
  | nestedItem {entry : Entry} : item = true → frame.role.holdsItems = true →
      frame.scope.item? = some entry → entry.input < i → frame.scope.childInput ≠ some i →
      column = (entry.anchorFor i true).carry i → Awaits frame item i column
  | ownKey {entry : Entry} {level : Nat} : (item && frame.role.holdsItems) = false →
      frame.scope.item? = some entry → frame.role.holdsTasks = true ∨ entry.input < i →
      entry.keyLevel = some level → i ≤ level → column = entry.memberIndent →
      Awaits frame item i column
  | deep {entry : Entry} {level : Nat} : (item && frame.role.holdsItems) = false →
      frame.scope.item? = some entry → frame.role.holdsTasks = true ∨ entry.input < i →
      entry.keyLevel = some level → level < i → column = (entry.anchorFor i false).carry i →
      Awaits frame item i column
  | left {entry : Entry} : (item && frame.role.holdsItems) = false →
      frame.scope.item? = some entry → frame.role.holdsTasks = false → i ≤ entry.input →
      column = i → Awaits frame item i column
  | child {first : Nat} : item = false → frame.scope.item? = none →
      frame.scope.childInput = some first → i ≤ first → column = frame.childIndent →
      Awaits frame item i column
  | below {first : Nat} : (item && frame.role.holdsItems) = false → frame.scope.item? = none →
      frame.scope.childInput = some first → first < i →
      column = (frame.anchorFor i first).carry i → Awaits frame item i column

theorem levelFor_of_keyLevel {level : Nat} (h : entry.keyLevel = some level) (i : Nat) :
    entry.levelFor i = level := by
  rw [Entry.levelFor, h, Option.getD_some]

/-- Where the level of the own keys is still to be learned, no line is deeper. -/
theorem keyLevel_of_levelFor_lt {i : Nat} (h : entry.levelFor i < i) :
    ∃ level, entry.keyLevel = some level ∧ level < i := by
  cases hlevel : entry.keyLevel with
  | none =>
    rw [Entry.levelFor, hlevel, Option.getD_none] at h
    omega
  | some level =>
    rw [levelFor_of_keyLevel hlevel] at h
    exact ⟨level, rfl, h⟩

theorem Leads.place_indent {column : Nat} (h : frame.Leads line.indent column)
    (hitem : line.isItem = true) : (place frame line).indent line = column := by
  obtain ⟨hholds, rfl, entry, hentry, hle⟩ := h
  have htakes : frame.takesItem line = true := by
    rw [takesItem, hitem, hholds]
    rfl
  rw [(Places.nextItem htakes hentry (.inl hle)).place_eq]
  rfl

theorem Awaits.place_indent {column : Nat} (h : frame.Awaits line.isItem line.indent column) :
    (place frame line).indent line = column := by
  cases h with
  | nestedItem hitem hholds hentry hdeep hchild hcolumn =>
    have htakes : frame.takesItem line = true := by
      rw [takesItem, hitem, hholds]
      rfl
    rw [(Places.nestedItem htakes hentry hdeep hchild).place_eq, hcolumn]
    rfl
  | ownKey htakes hentry hinside hlevel hle hcolumn =>
    rw [← levelFor_of_keyLevel hlevel line.indent] at hle
    rw [(Places.ownKey htakes hentry hinside hle).place_eq, hcolumn]
    rfl
  | deep htakes hentry hinside hlevel hlt hcolumn =>
    rw [← levelFor_of_keyLevel hlevel line.indent] at hlt
    rw [(Places.deep htakes hentry hinside hlt).place_eq, hcolumn]
    rfl
  | left htakes hentry htasks hle hcolumn =>
    rw [(Places.left htakes hentry htasks hle).place_eq, hcolumn]
    rfl
  | child hitem hnone hchild hle hcolumn =>
    have htakes : frame.takesItem line = false := by
      rw [takesItem, hitem]
      rfl
    have hlevel : line.indent ≤ frame.scope.childInput.getD line.indent := by
      rw [hchild]
      exact hle
    rw [(Places.child htakes hnone hlevel).place_eq, hcolumn]
    rfl
  | below htakes hnone hchild hlt hcolumn =>
    rw [(Places.below htakes hnone hchild hlt).place_eq, hcolumn]
    rfl

/-! ### The line that starts it -/

theorem leads_recorded (hitem : line.isItem = true) (hholds : frame.role.holdsItems = true)
    (hentry : (place frame line).isEntry = true) :
    (frame.recorded line).Leads line.indent ((place frame line).indent line) := by
  have htakes : frame.takesItem line = true := by
    rw [takesItem, hitem, hholds]
    rfl
  have hplaces := places_place frame line
  obtain ⟨indent, hplace⟩ := Placement.isEntry_iff.1 hentry
  have hindent : indent = frame.childIndent := by
    rw [hplace] at hplaces
    cases hplaces <;> rfl
  refine ⟨hholds, by rw [hplace, hindent]; rfl, _, ?_, Nat.le_of_eq (input_ofLine line indent).symm⟩
  rw [item?_recorded_entry hplace, if_pos hitem]

theorem awaits_recorded
    (hentry : (place frame line).isEntry = true → line.isItem = false) :
    (frame.recorded line).Awaits line.isItem line.indent ((place frame line).indent line) := by
  have hplaces := places_place frame line
  generalize hplace : place frame line = placement at hplaces hentry
  cases hplaces with
  | firstItem htakes _ =>
    rw [takesItem, hentry rfl] at htakes
    cases htakes
  | nextItem htakes _ _ =>
    rw [takesItem, hentry rfl] at htakes
    cases htakes
  | nestedItem htakes hitem hdeep hchild =>
    rw [takesItem, Bool.and_eq_true] at htakes
    rw [recorded_eq_self (by rw [hplace]; rfl) (by rw [hplace]; rfl)]
    exact .nestedItem htakes.1 htakes.2 hitem hdeep hchild rfl
  | @ownKey entry htakes hitem hinside hlevel =>
    have hentry' := item?_recorded_member hplace
    rw [hitem, Option.map_some] at hentry'
    exact .ownKey htakes hentry' hinside rfl hlevel rfl
  | deep htakes hitem hinside hlevel =>
    obtain ⟨level, hkey, hlt⟩ := keyLevel_of_levelFor_lt hlevel
    rw [recorded_eq_self (by rw [hplace]; rfl) (by rw [hplace]; rfl)]
    exact .deep htakes hitem hinside hkey hlt rfl
  | left htakes hitem htasks hleft =>
    rw [recorded_eq_self (by rw [hplace]; rfl) (by rw [hplace]; rfl)]
    exact .left htakes hitem htasks hleft rfl
  | child _ _ hlevel =>
    have hline : line.isItem = false := hentry rfl
    have hnone := item?_recorded_entry hplace
    rw [hline] at hnone
    exact .child hline hnone (childInput_recorded_entry hplace) hlevel rfl
  | below htakes hitem hchild hdeep =>
    rw [recorded_eq_self (by rw [hplace]; rfl) (by rw [hplace]; rfl)]
    exact .below htakes hitem hchild hdeep rfl

/-! ### The lines after it -/

theorem Leads.recorded {i column : Nat} (h : frame.Leads i column) (hle : i ≤ line.indent) :
    (frame.recorded line).Leads i column := by
  obtain ⟨hholds, hcolumn, entry, hentry, hinput⟩ := h
  refine ⟨hholds, hcolumn, ?_⟩
  have hplaces := places_place frame line
  generalize hplace : place frame line = placement at hplaces
  cases hplaces with
  | firstItem _ hitem => rw [hentry] at hitem; cases hitem
  | nextItem htakes _ _ =>
    rw [takesItem, Bool.and_eq_true] at htakes
    refine ⟨_, by rw [item?_recorded_entry hplace, if_pos htakes.1], ?_⟩
    rw [input_ofLine]
    exact hle
  | @ownKey current _ _ _ _ =>
    refine ⟨entry.addMember line current.memberIndent, ?_, hinput⟩
    rw [item?_recorded_member hplace, hentry, Option.map_some]
  | child _ hitem _ => rw [hentry] at hitem; cases hitem
  | nestedItem | deep | left | below =>
    rw [recorded_eq_self (by rw [hplace]; rfl) (by rw [hplace]; rfl)]
    exact ⟨entry, hentry, hinput⟩

/-- A line that is no less deep keeps what a frame awaits. For an item among items it may neither
become a direct child nor an own key; for any other line it may not be an item that becomes a
direct child. -/
theorem Awaits.recorded {item : Bool} {i column : Nat} (h : frame.Awaits item i column)
    (hle : i ≤ line.indent)
    (hitems : item = true → frame.role.holdsItems = true →
      (place frame line).isEntry = false ∧ (place frame line).isMember = false)
    (hothers : item = false → line.isItem = true → (place frame line).isEntry = false) :
    (frame.recorded line).Awaits item i column := by
  have hplaces := places_place frame line
  generalize hplace : place frame line = placement at hplaces hitems hothers
  cases hplaces with
  | firstItem htakes hnone =>
    rw [takesItem, Bool.and_eq_true] at htakes
    cases item with
    | true => cases (hitems rfl htakes.2).1
    | false => cases hothers rfl htakes.1
  | nextItem htakes _ _ =>
    rw [takesItem, Bool.and_eq_true] at htakes
    cases item with
    | true => cases (hitems rfl htakes.2).1
    | false => cases hothers rfl htakes.1
  | @ownKey current htakes hcurrent hinside hlevel =>
    have hrecorded := item?_recorded_member hplace
    rw [hcurrent, Option.map_some] at hrecorded
    cases h with
    | nestedItem hitem hholds _ _ _ _ => cases (hitems hitem hholds).2
    | @ownKey entry level htakes' hentry hinside' hkey hle' hcolumn =>
      rw [hcurrent, Option.some.injEq] at hentry
      subst hentry
      refine .ownKey htakes' hrecorded hinside' ?_ hle' hcolumn
      simp only [Entry.addMember, levelFor_of_keyLevel hkey]
    | @deep entry level htakes' hentry _ hkey hlt _ =>
      rw [hcurrent, Option.some.injEq] at hentry
      subst hentry
      rw [levelFor_of_keyLevel hkey] at hlevel
      omega
    | left htakes' hentry htasks hleft hcolumn =>
      rw [hcurrent, Option.some.injEq] at hentry
      subst hentry
      exact .left htakes' hrecorded htasks hleft hcolumn
    | child _ hnone _ _ _ => rw [hcurrent] at hnone; cases hnone
    | below _ hnone _ _ _ => rw [hcurrent] at hnone; cases hnone
  | child htakes hnone hlevel =>
    cases h with
    | nestedItem _ _ hentry _ _ _ => rw [hnone] at hentry; cases hentry
    | ownKey _ hentry _ _ _ _ => rw [hnone] at hentry; cases hentry
    | deep _ hentry _ _ _ _ => rw [hnone] at hentry; cases hentry
    | left _ hentry _ _ _ => rw [hnone] at hentry; cases hentry
    | child hitem _ hchild hle' hcolumn =>
      have hline : line.isItem = false := by
        cases hline : line.isItem with
        | true => cases hothers hitem hline
        | false => rfl
      have hrecorded := item?_recorded_entry hplace
      rw [hline] at hrecorded
      refine .child hitem hrecorded ?_ hle' hcolumn
      rw [childInput_recorded_entry hplace, hchild, Option.getD_some]
    | below _ _ hchild hlt _ =>
      rw [hchild, Option.getD_some] at hlevel
      omega
  | nestedItem | deep | left | below =>
    rw [recorded_eq_self (by rw [hplace]; rfl) (by rw [hplace]; rfl)]
    exact h

/-! ### Lines that wait -/

/-- What holds of a frame whatever lines wait in it. -/
structure Stable (P : Frame → Prop) : Prop where
  relocations : ∀ frame lines, P frame → P { frame with relocations := lines }
  append : ∀ frame lines, P frame → P { frame with scope := frame.scope.append lines }

theorem item?_append (scope : Scope) (lines : List Relocation) :
    (scope.append lines).item? =
      scope.item?.map fun entry => { entry with pending := entry.pending ++ lines } := by
  cases hentry : scope.entry with
  | none => simp [Scope.append, Scope.item?, hentry]
  | some entry =>
    simp only [Scope.append, Scope.item?, hentry, Option.map_some, Option.filter]
    split <;> rfl

theorem anchorFor_append (frame : Frame) (lines : List Relocation) (i level : Nat) :
    Frame.anchorFor { frame with scope := frame.scope.append lines } i level =
      frame.anchorFor i level := by
  cases hentry : frame.scope.entry <;> simp [Frame.anchorFor, Scope.append, hentry, childIndent]

theorem stable_leads (i column : Nat) : Stable fun frame => frame.Leads i column := by
  refine ⟨fun _ _ h => h, ?_⟩
  intro frame lines h
  obtain ⟨hholds, hcolumn, entry, hentry, hinput⟩ := h
  refine ⟨hholds, hcolumn, { entry with pending := entry.pending ++ lines }, ?_, hinput⟩
  rw [item?_append, hentry, Option.map_some]

theorem stable_awaits (item : Bool) (i column : Nat) :
    Stable fun frame => frame.Awaits item i column := by
  refine ⟨?_, ?_⟩
  · intro frame lines h
    cases h with
    | nestedItem hitem hholds hentry hdeep hchild hcolumn =>
      exact .nestedItem hitem hholds hentry hdeep hchild hcolumn
    | ownKey htakes hentry hinside hkey hle hcolumn =>
      exact .ownKey htakes hentry hinside hkey hle hcolumn
    | deep htakes hentry hinside hkey hlt hcolumn =>
      exact .deep htakes hentry hinside hkey hlt hcolumn
    | left htakes hentry htasks hle hcolumn => exact .left htakes hentry htasks hle hcolumn
    | child hitem hnone hchild hle hcolumn => exact .child hitem hnone hchild hle hcolumn
    | below htakes hnone hchild hlt hcolumn => exact .below htakes hnone hchild hlt hcolumn
  · intro frame lines h
    have hmap := item?_append frame.scope lines
    cases h with
    | nestedItem hitem hholds hentry hdeep hchild hcolumn =>
      rw [hentry, Option.map_some] at hmap
      exact .nestedItem hitem hholds hmap hdeep hchild hcolumn
    | ownKey htakes hentry hinside hkey hle hcolumn =>
      rw [hentry, Option.map_some] at hmap
      exact .ownKey htakes hmap hinside hkey hle hcolumn
    | deep htakes hentry hinside hkey hlt hcolumn =>
      rw [hentry, Option.map_some] at hmap
      exact .deep htakes hmap hinside hkey hlt hcolumn
    | left htakes hentry htasks hle hcolumn =>
      rw [hentry, Option.map_some] at hmap
      exact .left htakes hmap htasks hle hcolumn
    | child hitem hnone hchild hle hcolumn =>
      rw [hnone, Option.map_none] at hmap
      exact .child hitem hmap hchild hle hcolumn
    | below htakes hnone hchild hlt hcolumn =>
      rw [hnone, Option.map_none] at hmap
      rw [← anchorFor_append frame lines] at hcolumn
      exact .below htakes hmap hchild hlt hcolumn

end Frame
end Reindent
