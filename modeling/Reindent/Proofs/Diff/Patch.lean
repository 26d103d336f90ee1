import Reindent.Proofs.Diff.Reader
import Reindent.Proofs.Text.Lines

/-!
# Reindent.Proofs.Diff.Patch

What a difference says about the two versions.

* `Patches`          — hunks lead from one version to another, line by line.
* `patches_hunks`    — the hunks of two versions do.
* `patched?`         — puts what hunks add in the place of what they remove.
* `swap_hunks`       — the hunks of the versions the other way around.
* `lineDiff_patches` — a difference is read back as hunks that fit the old version and turn it into
  the new one.
-/

namespace Reindent

/-- Between two hunks is a line. -/
def Hunk.Leaves (above below : Hunk) : Prop :=
  above.line + above.removed.length < below.line

/-- The hunk that takes the replacement back. -/
def Hunk.swap (hunk : Hunk) : Hunk :=
  ⟨hunk.line, hunk.added, hunk.removed⟩

namespace Diff

/-! ### Hunks along two versions -/

/-- The hunks `patch` lead from `old` to `new`, `line` being the number of the first line. -/
inductive Patches : Nat → List Text → List Text → List Hunk → Prop where
  | same (line : Nat) (rest : List Text) : Patches line rest rest []
  | keep {line : Nat} {old new : List Text} {patch : List Hunk} (text : Text) :
      Patches (line + 1) old new patch → Patches line (text :: old) (text :: new) patch
  | replace {line : Nat} {old new : List Text} {patch : List Hunk} (removed added : List Text) :
      Patches (line + removed.length) old new patch →
        Patches line (removed ++ old) (added ++ new) (⟨line, removed, added⟩ :: patch)

variable {line : Nat} {old new : List Text} {patch : List Hunk}

namespace Patches

theorem le_line (h : Patches line old new patch) : ∀ hunk ∈ patch, line ≤ hunk.line := by
  induction h with
  | same => simp
  | keep text _ ih => exact fun hunk hhunk => Nat.le_of_succ_le (ih hunk hhunk)
  | replace removed added _ ih =>
    intro hunk hhunk
    rcases List.mem_cons.1 hhunk with rfl | hhunk
    · exact Nat.le_refl _
    · exact Nat.le_trans (Nat.le_add_right _ _) (ih hunk hhunk)

/-- What a hunk removes stands in the old version at the line that the hunk names. -/
theorem removed_eq (h : Patches line old new patch) :
    ∀ hunk ∈ patch, hunk.line - line + hunk.removed.length ≤ old.length ∧
      (old.drop (hunk.line - line)).take hunk.removed.length = hunk.removed := by
  induction h with
  | same => simp
  | @keep line old new patch text h ih =>
    intro hunk hhunk
    have hle := h.le_line hunk hhunk
    obtain ⟨hlength, hremoved⟩ := ih hunk hhunk
    have hline : hunk.line - line = hunk.line - (line + 1) + 1 := by omega
    rw [hline, List.drop_succ_cons, List.length_cons]
    exact ⟨by omega, hremoved⟩
  | @replace line old new patch removed added h ih =>
    intro hunk hhunk
    rcases List.mem_cons.1 hhunk with rfl | hhunk
    · simp
    · have hle := h.le_line hunk hhunk
      obtain ⟨hlength, hremoved⟩ := ih hunk hhunk
      have hline : hunk.line - line = removed.length + (hunk.line - (line + removed.length)) := by
        omega
      rw [hline, ← List.drop_drop, List.drop_left, List.length_append]
      exact ⟨by omega, hremoved⟩

/-- A hunk at the first line is taken off. -/
theorem uncons {hunk : Hunk} (h : Patches line old new (hunk :: patch)) (hline : hunk.line = line) :
    ∃ old' new', old = hunk.removed ++ old' ∧ new = hunk.added ++ new' ∧
      Patches (line + hunk.removed.length) old' new' patch := by
  cases h with
  | keep text h =>
    have hle := h.le_line hunk List.mem_cons_self
    omega
  | replace removed added h => exact ⟨_, _, rfl, rfl, h⟩

/-- Lines that stay can stand above. -/
theorem keep_append {kept : List Text} (h : Patches (line + kept.length) old new patch) :
    Patches line (kept ++ old) (kept ++ new) patch := by
  induction kept generalizing line with
  | nil => exact h
  | cons text kept ih =>
    refine .keep text (ih ?_)
    rw [Nat.add_assoc, Nat.add_comm 1]
    exact h

theorem eq_of_nil (h : Patches line old new patch) (hnil : patch = []) : old = new := by
  induction h with
  | same => rfl
  | keep text _ ih => rw [ih hnil]
  | replace => cases hnil

end Patches

/-! ### Position by position -/

theorem patches_extend {a b : Text} (h : Patches (line + 1) old new patch) :
    Patches line (a :: old) (b :: new) (Hunk.extend line a b patch) := by
  cases patch with
  | nil => exact .replace [a] [b] h
  | cons hunk patch =>
    rw [Hunk.extend]
    split
    · rename_i hline
      obtain ⟨old', new', rfl, rfl, hrest⟩ := h.uncons hline
      refine .replace (a :: hunk.removed) (b :: hunk.added) ?_
      rw [List.length_cons, Nat.add_comm hunk.removed.length, ← Nat.add_assoc]
      exact hrest
    · exact .replace [a] [b] h

theorem patches_positional (h : old.length = new.length) (line : Nat) :
    Patches line old new (positional line old new) := by
  induction old generalizing new line with
  | nil =>
    obtain rfl := List.length_eq_zero_iff.1 h.symm
    exact .same line []
  | cons a old ih =>
    cases new with
    | nil => simp at h
    | cons b new =>
      have hbelow := ih (Nat.succ.inj h) (line + 1)
      rw [positional]
      split
      · rename_i hsame
        subst hsame
        exact .keep a hbelow
      · exact patches_extend hbelow

theorem extend_eq_cons (line : Nat) (a b : Text) (patch : List Hunk) :
    ∃ hunk rest, Hunk.extend line a b patch = hunk :: rest ∧ hunk.line = line := by
  cases patch with
  | nil => exact ⟨_, [], rfl, rfl⟩
  | cons hunk rest =>
    rw [Hunk.extend]
    split
    · exact ⟨_, rest, rfl, rfl⟩
    · exact ⟨_, hunk :: rest, rfl, rfl⟩

/-- The versions start with the same line, or with none, if no hunk starts there. -/
theorem getElem?_zero_of_positional (h : old.length = new.length)
    (hnone : ∀ hunk ∈ (positional line old new).head?, hunk.line ≠ line) : old[0]? = new[0]? := by
  cases old with
  | nil =>
    obtain rfl := List.length_eq_zero_iff.1 h.symm
    rfl
  | cons a old =>
    cases new with
    | nil => simp at h
    | cons b new =>
      by_cases hab : a = b
      · rw [hab]
        rfl
      · rw [positional, if_neg hab] at hnone
        obtain ⟨hunk, rest, hcons, hline⟩ := extend_eq_cons line a b (positional (line + 1) old new)
        rw [hcons] at hnone
        exact absurd hline (hnone hunk rfl)

theorem pairwise_extend (a b : Text) (h : patch.Pairwise Hunk.Leaves)
    (hline : ∀ hunk ∈ patch, line + 1 ≤ hunk.line) :
    (Hunk.extend line a b patch).Pairwise Hunk.Leaves := by
  cases patch with
  | nil => exact List.pairwise_singleton _ _
  | cons hunk rest =>
    rw [List.forall_mem_cons] at hline
    obtain ⟨hhunk, hrest⟩ := List.pairwise_cons.1 h
    rw [Hunk.extend]
    split
    · rename_i hnext
      refine List.pairwise_cons.2 ⟨fun below hbelow => ?_, hrest⟩
      have hleaves := hhunk below hbelow
      simp only [Hunk.Leaves, List.length_cons] at hleaves ⊢
      omega
    · rename_i hnext
      refine List.pairwise_cons.2 ⟨fun below hbelow => ?_, h⟩
      simp only [Hunk.Leaves, List.length_cons, List.length_nil]
      rcases List.mem_cons.1 hbelow with rfl | hbelow
      · omega
      · have hleaves := hhunk below hbelow
        simp only [Hunk.Leaves] at hleaves
        omega

theorem pairwise_positional (h : old.length = new.length) (line : Nat) :
    (positional line old new).Pairwise Hunk.Leaves := by
  induction old generalizing new line with
  | nil => simp [positional]
  | cons a old ih =>
    cases new with
    | nil => simp at h
    | cons b new =>
      have hlength := Nat.succ.inj h
      rw [positional]
      split
      · exact ih hlength (line + 1)
      · exact pairwise_extend a b (ih hlength (line + 1))
          (patches_positional hlength (line + 1)).le_line

/-- Below the hunk the versions have the same line, or none, `line` being the number of their
first. -/
def Ends (line : Nat) (old new : List Text) (hunk : Hunk) : Prop :=
  old[hunk.line - line + hunk.removed.length]? = new[hunk.line - line + hunk.removed.length]?

theorem Ends.cons {hunk : Hunk} (h : Ends (line + 1) old new hunk) (hline : line + 1 ≤ hunk.line)
    (a b : Text) : Ends line (a :: old) (b :: new) hunk := by
  have hshift : hunk.line - line + hunk.removed.length =
      hunk.line - (line + 1) + hunk.removed.length + 1 := by omega
  rw [Ends, hshift, List.getElem?_cons_succ, List.getElem?_cons_succ]
  exact h

theorem ends_single (a b : Text) (h : old[0]? = new[0]?) :
    Ends line (a :: old) (b :: new) ⟨line, [a], [b]⟩ := by
  simpa [Ends] using h

/-- A hunk that takes in the line above it ends where it did. A new one ends above the line that no
hunk has. -/
theorem ends_extend (a b : Text) (h : ∀ hunk ∈ patch, Ends line (a :: old) (b :: new) hunk)
    (hfirst : (∀ hunk ∈ patch.head?, hunk.line ≠ line + 1) → old[0]? = new[0]?) :
    ∀ hunk ∈ Hunk.extend line a b patch, Ends line (a :: old) (b :: new) hunk := by
  cases patch with
  | nil => exact List.forall_mem_singleton.2 (ends_single a b (hfirst (by simp)))
  | cons next rest =>
    rw [List.forall_mem_cons] at h
    obtain ⟨hends, hrest⟩ := h
    rw [Hunk.extend]
    split
    · rename_i hnext
      refine List.forall_mem_cons.2 ⟨?_, hrest⟩
      rw [Ends, hnext] at hends
      simpa [Ends, Nat.add_comm] using hends
    · rename_i hnext
      refine List.forall_mem_cons.2 ⟨ends_single a b (hfirst ?_), List.forall_mem_cons.2
        ⟨hends, hrest⟩⟩
      intro hunk hhunk
      cases hhunk
      exact hnext

theorem ends_positional (h : old.length = new.length) (line : Nat) :
    ∀ hunk ∈ positional line old new, Ends line old new hunk := by
  induction old generalizing new line with
  | nil => simp [positional]
  | cons a old ih =>
    cases new with
    | nil => simp at h
    | cons b new =>
      have hlength := Nat.succ.inj h
      have hle := (patches_positional hlength (line + 1)).le_line
      -- The lines below the first are numbered from `line + 1` on.
      have hlower : ∀ hunk ∈ positional (line + 1) old new,
          Ends line (a :: old) (b :: new) hunk :=
        fun hunk hhunk => (ih hlength (line + 1) hunk hhunk).cons (hle hunk hhunk) a b
      rw [positional]
      split
      · exact hlower
      · exact ends_extend a b hlower (getElem?_zero_of_positional hlength)

/-! ### Shared lines -/

theorem take_sharedTop (old new : List Text) :
    old.take (sharedTop old new) = new.take (sharedTop old new) := by
  fun_induction sharedTop old new with
  | case1 a old new ih => simp [ih]
  | case2 => simp
  | case3 => simp

theorem sharedTop_le (old new : List Text) :
    sharedTop old new ≤ old.length ∧ sharedTop old new ≤ new.length := by
  fun_induction sharedTop old new with
  | case1 a old new ih => simpa using ih
  | case2 => simp
  | case3 => simp

theorem sharedTop_comm (old new : List Text) : sharedTop old new = sharedTop new old := by
  induction old generalizing new with
  | nil => cases new <;> rfl
  | cons a old ih =>
    cases new with
    | nil => rfl
    | cons b new => simp only [sharedTop, ih new, eq_comm]

/-- How many lines two versions share at the bottom, below the lines that they share at the
top. -/
def sharedBottom (old new : List Text) : Nat :=
  let top := sharedTop old new
  sharedTop (old.drop top).reverse (new.drop top).reverse

/-- The shared lines at the top and at the bottom do not overlap. -/
theorem sharedBottom_le (old new : List Text) :
    sharedTop old new + sharedBottom old new ≤ old.length ∧
      sharedTop old new + sharedBottom old new ≤ new.length := by
  have htop := sharedTop_le old new
  have hbottom := sharedTop_le (old.drop (sharedTop old new)).reverse
    (new.drop (sharedTop old new)).reverse
  simp only [List.length_reverse, List.length_drop] at hbottom
  simp only [sharedBottom]
  omega

/-- The hunk stands between lines that the versions share. -/
theorem exists_around_middle (old new : List Text) :
    ∃ head tail, head.length = sharedTop old new ∧
      old = head ++ ((middle old new).removed ++ tail) ∧
      new = head ++ ((middle old new).added ++ tail) := by
  have hshared := take_sharedTop (old.drop (sharedTop old new)).reverse
    (new.drop (sharedTop old new)).reverse
  rw [List.take_reverse, List.take_reverse, List.reverse_inj] at hshared
  refine ⟨old.take (sharedTop old new), (old.drop (sharedTop old new)).drop
    ((old.drop (sharedTop old new)).length - sharedBottom old new), ?_, ?_, ?_⟩
  · rw [List.length_take, Nat.min_eq_left (sharedTop_le old new).1]
  · rw [middle, sharedBottom, List.take_append_drop, List.take_append_drop]
  · rw [middle, sharedBottom, hshared, List.take_append_drop, take_sharedTop,
      List.take_append_drop]

theorem patches_middle (old new : List Text) : Patches 1 old new [middle old new] := by
  obtain ⟨head, tail, hhead, hold, hnew⟩ := exists_around_middle old new
  have hmiddle : Patches (1 + head.length) ((middle old new).removed ++ tail)
      ((middle old new).added ++ tail) [middle old new] := by
    rw [hhead, Nat.add_comm]
    exact .replace _ _ (.same _ tail)
  have hpatches := hmiddle.keep_append
  rwa [← hold, ← hnew] at hpatches

/-! ### The hunks of two versions -/

/-- The hunks of two versions lead from the one to the other. -/
theorem patches_hunks (old new : List Text) : Patches 1 old new (hunks old new) := by
  rw [hunks]
  split
  · rename_i hlength
    exact patches_positional hlength 1
  · exact patches_middle old new

theorem hunks_eq_nil_iff (old new : List Text) : hunks old new = [] ↔ old = new := by
  constructor
  · exact (patches_hunks old new).eq_of_nil
  · rintro rfl
    have hsame : ∀ line, positional line old old = [] := by
      induction old with
      | nil => exact fun _ => rfl
      | cons a old ih => exact fun line => by simp [positional, ih]
    rw [hunks, if_pos rfl, hsame]

theorem swap_positional (line : Nat) (old new : List Text) :
    (positional line old new).map Hunk.swap = positional line new old := by
  have hextend : ∀ (line : Nat) (a b : Text) (patch : List Hunk),
      (Hunk.extend line a b patch).map Hunk.swap = Hunk.extend line b a (patch.map Hunk.swap) := by
    intro line a b patch
    cases patch with
    | nil => rfl
    | cons hunk rest =>
      simp only [Hunk.extend, List.map_cons]
      by_cases hline : hunk.line = line + 1 <;> simp [Hunk.swap, hline]
  induction old generalizing new line with
  | nil => cases new <;> rfl
  | cons a old ih =>
    cases new with
    | nil => rfl
    | cons b new =>
      by_cases hab : a = b
      · simp [positional, hab, ih]
      · simp [positional, hab, Ne.symm hab, hextend, ih]

theorem swap_hunks (old new : List Text) : (hunks old new).map Hunk.swap = hunks new old := by
  rw [hunks, hunks]
  by_cases hlength : old.length = new.length
  · rw [if_pos hlength, if_pos hlength.symm, swap_positional]
  · have hmiddle : (middle old new).swap = middle new old := by
      simp only [middle, Hunk.swap, sharedTop_comm new old, sharedTop_comm (new.drop _).reverse]
    rw [if_neg hlength, if_neg (Ne.symm hlength), List.map_singleton, hmiddle]

/-! ### Applying hunks -/

/-- Puts what hunks add in the place of what they remove, `line` being the number of the first
line. Nothing comes of hunks that do not fit. -/
def patched? : Nat → List Text → List Hunk → Option (List Text)
  | _, old, [] => some old
  | line, old, hunk :: rest =>
    let above := old.take (hunk.line - line)
    let below := old.drop (hunk.line - line)
    if line + above.length = hunk.line && hunk.removed.isPrefixOf below then
      (patched? (hunk.line + hunk.removed.length) (below.drop hunk.removed.length) rest).map
        fun new => above ++ hunk.added ++ new
    else none

theorem patched?_cons (text : Text) (h : ∀ hunk ∈ patch, line + 1 ≤ hunk.line) :
    patched? line (text :: old) patch = (patched? (line + 1) old patch).map (text :: ·) := by
  cases patch with
  | nil => rfl
  | cons hunk rest =>
    have hle := h hunk List.mem_cons_self
    have hline : hunk.line - line = hunk.line - (line + 1) + 1 := by omega
    have hlength : ∀ n, line + (n + 1) = hunk.line ↔ line + 1 + n = hunk.line := by omega
    simp only [patched?, hline, List.take_succ_cons, List.drop_succ_cons, List.length_cons, hlength]
    split <;> simp [Function.comp_def]

theorem Patches.patched?_eq (h : Patches line old new patch) :
    patched? line old patch = some new := by
  induction h with
  | same => rfl
  | keep text h ih => rw [patched?_cons text h.le_line, ih, Option.map_some]
  | replace removed added _ ih => simp [patched?, ih]

/-! ### Differences -/

/-- The lines `part` are those of a document at the line `line`. -/
def StandsAt (lines : List Text) (line : Nat) (part : List Text) : Prop :=
  1 ≤ line ∧ line - 1 + part.length ≤ lines.length ∧
    (lines.drop (line - 1)).take part.length = part

/-- Between two hunks is a line that the versions share. -/
def Apart (old new : List Text) (above below : Hunk) : Prop :=
  ∃ line text, above.line + above.removed.length ≤ line ∧ line < below.line ∧
    old[line - 1]? = some text ∧ new[line - 1]? = some text

theorem standsAt_hunks (old new : List Text) : ∀ hunk ∈ hunks old new,
    StandsAt old hunk.line hunk.removed ∧ StandsAt new hunk.line hunk.added := by
  have hremoved : ∀ old new : List Text, ∀ hunk ∈ hunks old new,
      StandsAt old hunk.line hunk.removed := by
    intro old new hunk hhunk
    have hpatches := patches_hunks old new
    exact ⟨hpatches.le_line hunk hhunk, hpatches.removed_eq hunk hhunk⟩
  intro hunk hhunk
  have hswap : hunk.swap ∈ hunks new old := by
    rw [← swap_hunks]
    exact List.mem_map_of_mem hhunk
  exact ⟨hremoved old new hunk hhunk, hremoved new old hunk.swap hswap⟩

theorem pairwise_hunks (old new : List Text) : (hunks old new).Pairwise fun above below =>
    above.line < below.line ∧ above.line + above.removed.length ≤ below.line := by
  rw [hunks]
  split
  · rename_i hlength
    refine (pairwise_positional hlength 1).imp fun {above below} h => ?_
    simp only [Hunk.Leaves] at h
    omega
  · exact List.pairwise_singleton _ _

theorem apart_hunks (h : old.length = new.length) :
    (hunks old new).Pairwise (Apart old new) := by
  have hunks_eq : hunks old new = positional 1 old new := if_pos h
  have hstands := standsAt_hunks old new
  rw [hunks_eq] at hstands ⊢
  refine (pairwise_positional h 1).imp_of_mem fun {above below} habove hbelow hleaves => ?_
  simp only [Hunk.Leaves] at hleaves
  obtain ⟨hone, _⟩ := (hstands above habove).1
  obtain ⟨_, hlength, _⟩ := (hstands below hbelow).1
  have hline : above.line + above.removed.length - 1 < old.length := by omega
  have hsame := ends_positional h 1 above habove
  have hindex : above.line - 1 + above.removed.length =
      above.line + above.removed.length - 1 := by omega
  rw [Ends, hindex] at hsame
  exact ⟨_, old[above.line + above.removed.length - 1], Nat.le_refl _, hleaves,
    List.getElem?_eq_getElem hline, hsame ▸ List.getElem?_eq_getElem hline⟩

theorem isLined_hunks (old new : Text) : ∀ hunk ∈ hunks old.lines new.lines, hunk.IsLined := by
  have hfeed : ∀ t : Text, ∀ line ∈ t.lines, '\n' ∉ line := by
    intro t line hline
    obtain ⟨raw, hraw, rfl⟩ := List.mem_map.1 hline
    exact (Text.closed_splitLines t).not_mem_body raw hraw
  have hpart : ∀ (t : Text) (line : Nat) (part : List Text), StandsAt t.lines line part →
      ∀ text ∈ part, '\n' ∉ text := by
    rintro t line part ⟨_, _, hpart⟩ text htext
    rw [← hpart] at htext
    exact hfeed t text (List.mem_of_mem_drop (List.mem_of_mem_take htext))
  intro hunk hhunk
  obtain ⟨hold, hnew⟩ := standsAt_hunks old.lines new.lines hunk hhunk
  exact ⟨hpart old hunk.line hunk.removed hold, hpart new hunk.line hunk.added hnew⟩

theorem lineDiff_eq_nil_iff (old new : Text) : lineDiff old new = [] ↔ old.lines = new.lines := by
  rw [← hunks_eq_nil_iff, lineDiff, List.flatMap_eq_nil_iff]
  constructor
  · intro h
    refine List.eq_nil_iff_forall_not_mem.2 fun hunk hhunk => ?_
    have hempty := h hunk hhunk
    rw [Hunk.render_eq, Hunk.lines, List.flatMap_cons] at hempty
    simp at hempty
  · intro h hunk hhunk
    rw [h] at hhunk
    cases hhunk

/-- A difference is read back as hunks, and as no others. They stand one below the other where the
versions have what they remove and add, and turn the lines of the old version into those of the new
one. There are none only for the same lines. Two versions of one length share a line between any two
hunks, and what versions share at the top and at the bottom does not overlap. -/
theorem lineDiff_patches (old new : Text) :
    (∃ patch : List Hunk,
      read? (lineDiff old new) = some patch ∧
      (∀ others : List Hunk, (∀ hunk ∈ others, hunk.IsLined) →
        others.flatMap Hunk.render = lineDiff old new → others = patch) ∧
      (patch.Pairwise fun above below =>
        above.line < below.line ∧ above.line + above.removed.length ≤ below.line) ∧
      (∀ hunk ∈ patch, StandsAt old.lines hunk.line hunk.removed ∧
        StandsAt new.lines hunk.line hunk.added) ∧
      patched? 1 old.lines patch = some new.lines ∧
      (old.lines.length = new.lines.length → patch.Pairwise (Apart old.lines new.lines))) ∧
    (lineDiff old new = [] ↔ old.lines = new.lines) ∧
    sharedTop old.lines new.lines + sharedBottom old.lines new.lines ≤ old.lines.length ∧
    sharedTop old.lines new.lines + sharedBottom old.lines new.lines ≤ new.lines.length := by
  have hlined := isLined_hunks old new
  refine ⟨⟨hunks old.lines new.lines, read?_flatMap_render hlined, ?_, pairwise_hunks _ _,
    standsAt_hunks _ _, (patches_hunks _ _).patched?_eq, apart_hunks⟩, lineDiff_eq_nil_iff old new,
    sharedBottom_le _ _⟩
  intro others hothers hsame
  exact render_injective hlined hothers hsame

example : read? "@@ line 2 @@\n--\n+@@ line 1 @@\n".toList =
    some [⟨2, ["-".toList], ["@@ line 1 @@".toList]⟩] := by decide +kernel

end Diff
end Reindent
