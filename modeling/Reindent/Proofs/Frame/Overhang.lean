import Reindent.Proofs.Frame.Sibling

/-!
# Reindent.Proofs.Frame.Overhang

Where a frame puts a line: to the right of its own column, with one exception.

* `Entry.Keys`  — what the columns of an item and of its own keys have to do with each other.
* `Frame.Sound` — the last child of the frame stands at the column of children, and its keys are in
  order; `Sound.recorded` keeps that.
* `Frame.Overhangs` — the exception: an item that is nested below a dash alone on its line, and
  stands far to the left of the key that the column of the own keys was learned from.
* `lt_carry_nested_iff` — where an item goes that is nested in an item.
* `Sound.baseIndent_lt_iff` — any other line is written to the right of the frame's column.
-/

namespace Reindent

/-- A dash alone on its line. -/
def Line.isBareDash (line : Line) : Bool :=
  line.payload? == some []

/-- The columns of an item's own keys: not known yet; as far from the dash as the payload is; or
learned from a key below a dash alone on its line. A document has such dashes only if `bare`. -/
inductive Entry.Keys (bare : Prop) (entry : Entry) : Prop where
  | unknown : (entry.item = true → bare) → entry.keyLevel = none → entry.member = none →
      entry.memberIndent = entry.output + 2 → Keys bare entry
  | payload {offset : Nat} {last : Anchor} : entry.keyLevel = some (entry.input + offset) →
      entry.memberIndent = entry.output + offset → entry.member = some last →
      last.input ≤ entry.input + offset → last.output = entry.memberIndent → Keys bare entry
  | learned {level : Nat} {last : Anchor} : bare → entry.keyLevel = some level →
      entry.memberIndent = entry.output + 2 → entry.member = some last →
      last.input ≤ level → last.output = entry.memberIndent → Keys bare entry

namespace Frame

/-- What the columns of the last child have to do with those of the frame. -/
def Sound (bare : Prop) (frame : Frame) : Prop :=
  ∀ entry, frame.scope.entry = some entry → entry.output = frame.childIndent ∧ entry.Keys bare

/-- An item that is nested in the item `entry` of the frame, left of its last own key, by four
columns or more left of where its keys were learned to stand. -/
structure Overhangs (frame : Frame) (line : Line) (entry : Entry) (level : Nat) : Prop where
  takes : frame.takesItem line = true
  item : frame.scope.item? = some entry
  deeper : entry.input < line.indent
  nested : frame.scope.childInput ≠ some line.indent
  left : ∃ last, entry.member = some last ∧ line.indent < last.input
  learned : entry.memberIndent = entry.output + 2
  keyLevel : entry.keyLevel = some level
  far : line.indent + 4 ≤ level

variable {bare : Prop} {frame : Frame} {line : Line} {entry : Entry}

theorem entry_of_item? (h : frame.scope.item? = some entry) :
    frame.scope.entry = some entry ∧ entry.item = true := by
  rw [Scope.item?] at h
  exact Option.filter_eq_some_iff.1 h

theorem sound_of_entry (h : frame.scope.entry = none) : frame.Sound bare := by
  intro entry hentry
  rw [h] at hentry
  cases hentry

theorem stable_sound (bare : Prop) : Stable fun frame => frame.Sound bare := by
  refine ⟨fun _ _ h => h, ?_⟩
  intro frame lines h entry hentry
  cases hbefore : frame.scope.entry with
  | none => simp [Scope.append, hbefore] at hentry
  | some before =>
    simp only [Scope.append, hbefore, Option.map_some, Option.some.injEq] at hentry
    subst hentry
    obtain ⟨houtput, hkeys⟩ := h before hbefore
    refine ⟨houtput, ?_⟩
    cases hkeys with
    | unknown hbare hlevel hmember hindent => exact .unknown hbare hlevel hmember hindent
    | payload hlevel hindent hmember hle hlast => exact .payload hlevel hindent hmember hle hlast
    | learned hbare hlevel hindent hmember hle hlast =>
      exact .learned hbare hlevel hindent hmember hle hlast

/-! ### Lines that are placed keep the columns in order -/

theorem keys_ofLine (hbare : line.isBareDash = true → bare) (output : Nat) :
    (Entry.ofLine line output).Keys bare := by
  simp only [Entry.ofLine]
  split
  · exact .payload rfl rfl rfl (Nat.le_refl _) rfl
  · rename_i hpayload
    refine .unknown ?_ rfl rfl rfl
    intro hitem
    have hpayload? : line.payload? ≠ none := by
      have hline : line.isItem = true := hitem
      simp [Line.payload?, hline]
    refine hbare ?_
    cases h : line.payload? with
    | none => exact absurd h hpayload?
    | some payload =>
      cases payload with
      | nil => simp [Line.isBareDash, h]
      | cons c rest => exact absurd h (hpayload c rest)

theorem output_ofLine (line : Line) (output : Nat) :
    (Entry.ofLine line output).output = output := by
  simp only [Entry.ofLine]
  split <;> rfl

theorem keys_addMember (h : entry.Keys bare) (hitem : entry.item = true)
    (hlevel : line.indent ≤ entry.levelFor line.indent) :
    (entry.addMember line entry.memberIndent).Keys bare := by
  cases h with
  | unknown hbare hnone _ hindent =>
    exact .learned (hbare hitem) rfl hindent rfl hlevel rfl
  | payload hkey hindent _ _ _ =>
    rw [levelFor_of_keyLevel hkey] at hlevel
    refine .payload ?_ hindent rfl hlevel rfl
    simp only [Entry.addMember, levelFor_of_keyLevel hkey]
  | learned hbare hkey hindent _ _ _ =>
    rw [levelFor_of_keyLevel hkey] at hlevel
    refine .learned hbare ?_ hindent rfl hlevel rfl
    simp only [Entry.addMember, levelFor_of_keyLevel hkey]

theorem Sound.recorded (h : frame.Sound bare) (hbare : line.isBareDash = true → bare) :
    (frame.recorded line).Sound bare := by
  have hchild : ∀ entry, (frame.recorded line).scope.entry = some entry →
      place frame line = .entry frame.childIndent →
        entry.output = frame.childIndent ∧ entry.Keys bare := by
    intro entry hentry hplace
    simp only [Frame.recorded, hplace, Scope.record, Option.some.injEq] at hentry
    subst hentry
    exact ⟨output_ofLine line _, keys_ofLine hbare _⟩
  have hplaces := places_place frame line
  generalize hplace : place frame line = placement at hplaces hchild
  intro entry hentry
  cases hplaces with
  | firstItem _ _ => exact hchild entry hentry rfl
  | nextItem _ _ _ => exact hchild entry hentry rfl
  | child _ _ _ => exact hchild entry hentry rfl
  | @ownKey current _ hcurrent _ hlevel =>
    obtain ⟨hsome, hitem⟩ := entry_of_item? hcurrent
    obtain ⟨houtput, hkeys⟩ := h current hsome
    simp only [Frame.recorded, hplace, Scope.record, hsome, Option.map_some,
      Option.some.injEq] at hentry
    subst hentry
    exact ⟨houtput, keys_addMember hkeys hitem hlevel⟩
  | nestedItem | deep | left | below =>
    rw [recorded_eq_self (by rw [hplace]; rfl) (by rw [hplace]; rfl)] at hentry
    exact h entry hentry

/-! ### The column of a line -/

theorem output_le_memberIndent (h : entry.Keys bare) : entry.output ≤ entry.memberIndent := by
  cases h with
  | unknown _ _ _ hindent => omega
  | payload _ hindent _ _ _ => omega
  | learned _ _ hindent _ _ _ => omega

theorem output_of_member (h : entry.Keys bare) {last : Anchor}
    (hmember : entry.member = some last) : last.output = entry.memberIndent := by
  cases h with
  | unknown _ _ hnone _ =>
    rw [hnone] at hmember
    cases hmember
  | payload _ _ hmember' _ houtput =>
    rw [hmember', Option.some.injEq] at hmember
    rw [← hmember, houtput]
  | learned _ _ _ hmember' _ houtput =>
    rw [hmember', Option.some.injEq] at hmember
    rw [← hmember, houtput]

/-- The own keys stand at one column, and the last of them at it or left of it. -/
theorem exists_member (h : entry.Keys bare) {level : Nat} (hkey : entry.keyLevel = some level) :
    ∃ last, entry.member = some last ∧ last.input ≤ level := by
  cases h with
  | unknown _ hnone _ _ =>
    rw [hnone] at hkey
    cases hkey
  | payload hkey' _ hmember hle _ =>
    rw [hkey', Option.some.injEq] at hkey
    exact ⟨_, hmember, hkey ▸ hle⟩
  | learned _ hkey' _ hmember hle _ =>
    rw [hkey', Option.some.injEq] at hkey
    exact ⟨_, hmember, hkey ▸ hle⟩

/-- A line deeper than the own keys is deeper than the last of them, and moves with it. -/
theorem exists_member_of_deep (h : entry.Keys bare) {i : Nat} (hdeep : entry.levelFor i < i) :
    ∃ last, entry.member = some last ∧ last.input < i ∧ entry.anchorFor i false = last := by
  obtain ⟨level, hkey, hlt⟩ := keyLevel_of_levelFor_lt hdeep
  obtain ⟨last, hlast, hle⟩ := exists_member h hkey
  have hbelow : last.input < i := Nat.lt_of_le_of_lt hle hlt
  exact ⟨last, hlast, hbelow, by simp [Entry.anchorFor, hlast, hbelow]⟩

theorem output_le_carry_deep (h : entry.Keys bare) {i : Nat} (hdeep : entry.levelFor i < i) :
    entry.output ≤ (entry.anchorFor i false).carry i := by
  obtain ⟨last, hlast, hbelow, hanchor⟩ := exists_member_of_deep h hdeep
  have hmember := output_le_memberIndent h
  have houtput := output_of_member h hlast
  rw [hanchor, Anchor.carry]
  omega

/-! An item nested in an item moves with the last own key right of that key, and left of it with the
column of the own keys. -/

theorem anchorFor_of_le {last : Anchor} {i : Nat} (hmember : entry.member = some last)
    (hle : last.input ≤ i) : entry.anchorFor i true = last := by
  rcases Nat.lt_or_eq_of_le hle with hlt | heq
  · simp [Entry.anchorFor, hmember, hlt]
  · simp [Entry.anchorFor, hmember, heq]

theorem anchorFor_of_lt {last : Anchor} {level i : Nat} (hmember : entry.member = some last)
    (hlt : i < last.input) (hkey : entry.keyLevel = some level) :
    entry.anchorFor i true = ⟨level, entry.memberIndent⟩ := by
  have hne : ¬ (i > last.input ∨ i = last.input) := by omega
  simp [Entry.anchorFor, hmember, levelFor_of_keyLevel hkey, hne]

section Nested

variable {base i : Nat}

theorem lt_carry_of_no_member (h : entry.Keys bare) (hbase : entry.output = base + 2)
    (hdeep : entry.input < i) (hmember : entry.member = none) :
    base < (entry.anchorFor i true).carry i := by
  cases h with
  | unknown _ hnone _ hindent =>
    have hlevel : entry.levelFor i ≤ i + 1 := by
      rw [Entry.levelFor, hnone, Option.getD_none]
      omega
    simp only [Entry.anchorFor, hmember, Anchor.carry]
    omega
  | payload _ _ hmember' _ _ =>
    rw [hmember'] at hmember
    cases hmember
  | learned _ _ _ hmember' _ _ =>
    rw [hmember'] at hmember
    cases hmember

theorem lt_carry_of_le (h : entry.Keys bare) (hbase : entry.output = base + 2) {last : Anchor}
    (hmember : entry.member = some last) (hle : last.input ≤ i) :
    base < (entry.anchorFor i true).carry i := by
  have hindent := output_le_memberIndent h
  have houtput := output_of_member h hmember
  rw [anchorFor_of_le hmember hle, Anchor.carry]
  omega

/-- The column of the own keys of a dash with a payload is as far from the dash as in the input. -/
theorem lt_carry_of_lt_iff (h : entry.Keys bare) (hbase : entry.output = base + 2)
    (hdeep : entry.input < i) {last : Anchor} (hmember : entry.member = some last)
    (hlt : i < last.input) :
    base < (entry.anchorFor i true).carry i ↔
      ¬ (entry.memberIndent = entry.output + 2 ∧
        ∃ level, entry.keyLevel = some level ∧ i + 4 ≤ level) := by
  cases h with
  | unknown _ _ hnone _ =>
    rw [hnone] at hmember
    cases hmember
  | @payload offset _ hkey hindent _ _ _ =>
    rw [anchorFor_of_lt hmember hlt hkey, Anchor.carry]
    refine iff_of_true (by dsimp only; omega) ?_
    rintro ⟨htwo, level, hlevel, hfar⟩
    rw [hkey, Option.some.injEq] at hlevel
    omega
  | @learned level _ _ hkey hindent _ _ _ =>
    have hfar : (∃ level, entry.keyLevel = some level ∧ i + 4 ≤ level) ↔ i + 4 ≤ level := by
      simp [hkey]
    rw [anchorFor_of_lt hmember hlt hkey, Anchor.carry]
    simp only [hfar, hindent, true_and]
    omega

theorem lt_carry_nested_iff (h : entry.Keys bare) (hbase : entry.output = base + 2)
    (hdeep : entry.input < i) :
    base < (entry.anchorFor i true).carry i ↔
      ¬ ((∃ last, entry.member = some last ∧ i < last.input) ∧
        entry.memberIndent = entry.output + 2 ∧
        ∃ level, entry.keyLevel = some level ∧ i + 4 ≤ level) := by
  cases hmember : entry.member with
  | none =>
    refine iff_of_true (lt_carry_of_no_member h hbase hdeep hmember) ?_
    rintro ⟨⟨last, hlast, _⟩, _⟩
    cases hlast
  | some last =>
    rcases Nat.lt_or_ge i last.input with hlt | hle
    · have hleft : ∃ other, some last = some other ∧ i < other.input := ⟨last, rfl, hlt⟩
      rw [lt_carry_of_lt_iff h hbase hdeep hmember hlt]
      simp only [hleft, true_and]
    · refine iff_of_true (lt_carry_of_le h hbase hmember hle) ?_
      rintro ⟨⟨other, hother, hlt⟩, _⟩
      rw [Option.some.injEq] at hother
      rw [hother] at hle
      omega

end Nested

/-- A line deeper than the children moves with the last of them. -/
theorem Sound.lt_carry (h : frame.Sound bare) {column i : Nat} (hdeep : column < i) :
    frame.baseIndent < (frame.anchorFor i column).carry i := by
  simp only [Frame.anchorFor]
  split
  · rename_i entry hentry
    obtain ⟨houtput, _⟩ := h entry hentry
    rw [childIndent] at houtput
    split
    · simp only [Anchor.carry]
      omega
    · simp only [Anchor.carry, childIndent]
      omega
  · simp only [Anchor.carry, childIndent]
    omega

/-- A line that gets a place is written to the right of the frame's column, unless it overhangs. -/
theorem Sound.baseIndent_lt_iff (h : frame.Sound bare) (hplaced : place frame line ≠ .unchanged) :
    frame.baseIndent < (place frame line).indent line ↔
      ¬ ∃ entry level, frame.Overhangs line entry level := by
  have hplaces := places_place frame line
  have hfits : frame.takesItem line = false → frame.baseIndent < (place frame line).indent line →
      (frame.baseIndent < (place frame line).indent line ↔
        ¬ ∃ entry level, frame.Overhangs line entry level) := by
    intro htakes hlt
    refine iff_of_true hlt ?_
    rintro ⟨entry, level, hoverhangs⟩
    have hitem := hoverhangs.takes
    rw [htakes] at hitem
    cases hitem
  generalize place frame line = placement at hplaces hplaced hfits
  cases hplaces with
  | firstItem _ hnone =>
    refine iff_of_true (Nat.lt_add_of_pos_right (by decide)) ?_
    rintro ⟨entry, level, hoverhangs⟩
    have hitem := hoverhangs.item
    rw [hnone] at hitem
    cases hitem
  | @nextItem current _ hitem hcolumn =>
    refine iff_of_true (Nat.lt_add_of_pos_right (by decide)) ?_
    rintro ⟨entry, level, hoverhangs⟩
    have hsame := hoverhangs.item
    rw [hitem, Option.some.injEq] at hsame
    subst hsame
    rcases hcolumn with hle | hchild
    · exact absurd hoverhangs.deeper (Nat.not_lt.2 hle)
    · exact hoverhangs.nested hchild
  | @nestedItem current htakes hitem hdeep hchild =>
    obtain ⟨houtput, hkeys⟩ := h current (entry_of_item? hitem).1
    refine (lt_carry_nested_iff hkeys houtput hdeep).trans (not_congr ?_)
    constructor
    · rintro ⟨hleft, hlearned, level, hlevel, hfar⟩
      exact ⟨current, level, htakes, hitem, hdeep, hchild, hleft, hlearned, hlevel, hfar⟩
    · rintro ⟨entry, level, hoverhangs⟩
      have hsame := hoverhangs.item
      rw [hitem, Option.some.injEq] at hsame
      subst hsame
      exact ⟨hoverhangs.left, hoverhangs.learned, level, hoverhangs.keyLevel, hoverhangs.far⟩
  | @ownKey current htakes hitem _ _ =>
    obtain ⟨houtput, hkeys⟩ := h current (entry_of_item? hitem).1
    have hmember := output_le_memberIndent hkeys
    refine hfits htakes ?_
    rw [houtput, childIndent] at hmember
    simp only [Placement.indent]
    omega
  | @deep current htakes hitem _ hlevel =>
    obtain ⟨houtput, hkeys⟩ := h current (entry_of_item? hitem).1
    have hcarry := output_le_carry_deep hkeys hlevel
    refine hfits htakes ?_
    rw [houtput, childIndent] at hcarry
    simp only [Placement.indent]
    omega
  | left _ _ _ _ => exact absurd rfl hplaced
  | child htakes _ _ => exact hfits htakes (Nat.lt_add_of_pos_right (by decide))
  | below htakes _ _ hdeep => exact hfits htakes (h.lt_carry hdeep)

theorem bare_of_overhangs (h : frame.Sound bare) {level : Nat}
    (hoverhangs : frame.Overhangs line entry level) : bare := by
  obtain ⟨hentry, hitem⟩ := entry_of_item? hoverhangs.item
  cases (h entry hentry).2 with
  | unknown hbare _ _ _ => exact hbare hitem
  | payload hkey hindent _ _ _ =>
    have hlevel := hoverhangs.keyLevel
    have hlearned := hoverhangs.learned
    have hfar := hoverhangs.far
    have hdeeper := hoverhangs.deeper
    rw [hkey, Option.some.injEq] at hlevel
    omega
  | learned hbare _ _ _ _ _ => exact hbare

end Frame
end Reindent
