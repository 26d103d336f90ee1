import Reindent.Proofs.Answers
import Reindent.Proofs.Path.Components
import Reindent.Tree.Basic

/-!
# Reindent.Proofs.Tree.Lookup

Where paths lead in a tree.

* `Tree.Proper`   — everything has a name that a path can have, and is held by a directory.
* `mem_below`     — what is below a directory is what the tree has there.
* `descend`       — the names below a directory lead from it to their place.
* `locate_join`   — a joined name is one step on from the place of the base.
-/

namespace Reindent
namespace Tree

variable {tree : Tree} {location place : Location} {name : Text} {names : List Text} {node : Node}

/-- A tree of files and directories: every name is one that a path can have and that is not too
long, and everything is held by a directory. -/
structure Proper (tree : Tree) : Prop where
  names : ∀ entry ∈ tree.entries, ∀ name ∈ entry.1,
    (Component.name name).Proper ∧ name.width ≤ maxName
  holder : ∀ entry ∈ tree.entries, tree.isDirectoryAt entry.1.dropLast

instance (tree : Tree) : Decidable tree.Proper :=
  decidable_of_iff
    ((∀ entry ∈ tree.entries, ∀ name ∈ entry.1,
        (Component.name name).Proper ∧ name.width ≤ maxName) ∧
      ∀ entry ∈ tree.entries, tree.isDirectoryAt entry.1.dropLast)
    ⟨fun h => ⟨h.1, h.2⟩, fun h => ⟨h.names, h.holder⟩⟩

/-! ### Places -/

theorem isSome_nodeAt?_of_isDirectoryAt (h : tree.isDirectoryAt location) :
    (tree.nodeAt? location).isSome := by
  unfold isDirectoryAt at h
  cases hnode : tree.nodeAt? location with
  | none =>
    rw [hnode] at h
    cases h
  | some node => rfl

theorem isSome_nodeAt?_iff (h : location ≠ []) :
    (tree.nodeAt? location).isSome ↔ ∃ entry ∈ tree.entries, entry.1 = location := by
  unfold nodeAt?
  split
  · exact absurd rfl h
  · rw [List.lookup_isSome_iff]
    constructor
    · rintro ⟨entry, hentry, heq⟩
      exact ⟨entry, hentry, (beq_iff_eq.1 heq).symm⟩
    · rintro ⟨entry, hentry, heq⟩
      exact ⟨entry, hentry, beq_iff_eq.2 heq.symm⟩

theorem mem_below : names ∈ tree.below place ↔
    names ≠ [] ∧ (tree.nodeAt? (place ++ names)).isSome := by
  have hnames : names ≠ [] → place ++ names ≠ [] :=
    fun hne h => hne (List.append_eq_nil_iff.1 h).2
  rw [below, List.mem_mergeSort, List.mem_filterMap]
  constructor
  · rintro ⟨⟨location, node⟩, hentry, hdrop⟩
    dsimp only at hdrop
    split at hdrop
    · rename_i hbelow
      simp only [Bool.and_eq_true, List.isPrefixOf_iff_prefix, decide_eq_true_eq] at hbelow
      obtain ⟨⟨rest, rfl⟩, hlength⟩ := hbelow
      rw [List.drop_left, Option.some.injEq] at hdrop
      subst hdrop
      have hne : rest ≠ [] := by
        rintro rfl
        simp at hlength
      exact ⟨hne, (isSome_nodeAt?_iff (hnames hne)).2 ⟨_, hentry, rfl⟩⟩
    · cases hdrop
  · rintro ⟨hne, hnode⟩
    obtain ⟨⟨location, node⟩, hentry, rfl⟩ := (isSome_nodeAt?_iff (hnames hne)).1 hnode
    have hlength := List.length_pos_iff.2 hne
    exact ⟨_, hentry, by simp [hlength]⟩

/-! ### Steps -/

/-- A step leaves a directory. It stays there, goes up, or goes down to something. -/
theorem step_cases {segment : Text} {location' : Location}
    (h : tree.step location segment = .ok location') :
    tree.isDirectoryAt location ∧
      (Component.ofSegment? segment = none ∧ location' = location ∨
        Component.ofSegment? segment = some .up ∧ location' = location.dropLast ∨
        ∃ name, Component.ofSegment? segment = some (.name name) ∧
          location' = location ++ [name] ∧ (tree.nodeAt? location').isSome) := by
  unfold step at h
  split at h
  · cases h
  · rename_i hdirectory
    refine ⟨by simpa using hdirectory, ?_⟩
    obtain hnone | hup | ⟨name, hname⟩ := Component.ofSegment?_cases segment
    · rw [hnone] at h
      cases h
      exact .inl ⟨hnone, rfl⟩
    · rw [hup] at h
      cases h
      exact .inr (.inl ⟨hup, rfl⟩)
    · simp only [hname] at h
      split at h
      · cases h
      · split at h
        · cases h
          exact .inr (.inr ⟨name, hname, rfl, ‹_›⟩)
        · cases h

theorem step_idle {segment : Text} (h : tree.isDirectoryAt location)
    (hidle : Component.ofSegment? segment = none) : tree.step location segment = .ok location := by
  simp [step, h, hidle]

theorem step_empty (h : tree.isDirectoryAt location) : tree.step location [] = .ok location :=
  step_idle h rfl

/-- A step leads to something unless it goes up. -/
theorem step_ok {segment : Text} {location' : Location}
    (h : tree.step location segment = .ok location') :
    tree.isDirectoryAt location ∧ (segment = ['.', '.'] ∨ (tree.nodeAt? location').isSome) := by
  obtain ⟨hdirectory, ⟨-, rfl⟩ | ⟨hup, -⟩ | ⟨name, -, -, hnode⟩⟩ := step_cases h
  · exact ⟨hdirectory, .inr (isSome_nodeAt?_of_isDirectoryAt hdirectory)⟩
  · exact ⟨hdirectory, .inl (Component.text_of_ofSegment? hup).symm⟩
  · exact ⟨hdirectory, .inr hnode⟩

/-- A slash at the end leads nowhere else. -/
theorem foldlM_step_concat {segments : List Text} {location' : Location}
    (h : (segments ++ [[]]).foldlM tree.step location = .ok location') :
    segments.foldlM tree.step location = .ok location' := by
  obtain ⟨middle, hmiddle, hlast⟩ := foldlM_append_eq_ok.1 h
  rw [foldlM_singleton] at hlast
  rw [hmiddle, ← step_empty (step_ok hlast).1, hlast]

theorem step_name (h : tree.isDirectoryAt location) (hname : (Component.name name).Proper)
    (hwidth : name.width ≤ maxName) (hnode : (tree.nodeAt? (location ++ [name])).isSome) :
    tree.step location name = .ok (location ++ [name]) := by
  simp [step, h, Component.ofSegment?_of_proper hname, Nat.not_lt.2 hwidth, hnode]

/-- A step along a name goes down. -/
theorem step_proper {location' : Location} (hname : (Component.name name).Proper)
    (h : tree.step location name = .ok location') : location' = location ++ [name] := by
  have hsegment := Component.ofSegment?_of_proper hname
  obtain ⟨-, ⟨hnone, -⟩ | ⟨hup, -⟩ | ⟨last, hlast, rfl, -⟩⟩ := step_cases h
  · rw [hsegment] at hnone
    cases hnone
  · rw [hsegment] at hup
    cases hup
  · rw [hsegment] at hlast
    cases hlast
    rfl

namespace Proper

variable (h : tree.Proper)
include h

theorem isDirectoryAt_of_append {rest : List Text}
    (hnode : (tree.nodeAt? (place ++ name :: rest)).isSome) : tree.isDirectoryAt place := by
  induction rest using List.reverseRecOn with
  | nil =>
    obtain ⟨entry, hentry, heq⟩ := (isSome_nodeAt?_iff (by simp)).1 hnode
    have hholder := h.holder entry hentry
    rwa [heq, List.dropLast_concat] at hholder
  | append_singleton rest last ih =>
    obtain ⟨entry, hentry, heq⟩ := (isSome_nodeAt?_iff (by simp)).1 hnode
    have hholder := h.holder entry hentry
    rw [heq, ← List.cons_append, ← List.append_assoc, List.dropLast_concat] at hholder
    exact ih (isSome_nodeAt?_of_isDirectoryAt hholder)

theorem proper_names (hne : names ≠ []) (hnode : (tree.nodeAt? (place ++ names)).isSome) :
    ∀ name ∈ names, (Component.name name).Proper := by
  intro name hname
  have hplace : place ++ names ≠ [] := fun heq => hne (List.append_eq_nil_iff.1 heq).2
  obtain ⟨entry, hentry, heq⟩ := (isSome_nodeAt?_iff hplace).1 hnode
  exact (h.names entry hentry name (heq ▸ List.mem_append_right _ hname)).1

/-- The names below a place lead from it to what they name. -/
theorem descend (hnode : (tree.nodeAt? (place ++ names)).isSome) :
    names.foldlM tree.step place = .ok (place ++ names) := by
  induction names generalizing place with
  | nil => simp [pure, Except.pure]
  | cons name names ih =>
    obtain ⟨entry, hentry, heq⟩ := (isSome_nodeAt?_iff (by simp)).1 hnode
    obtain ⟨hname, hwidth⟩ := h.names entry hentry name (by simp [heq])
    have hassoc : place ++ name :: names = place ++ [name] ++ names := by simp
    have hnext : (tree.nodeAt? (place ++ [name])).isSome := by
      cases names with
      | nil => exact hnode
      | cons next rest =>
        rw [hassoc] at hnode
        exact isSome_nodeAt?_of_isDirectoryAt (h.isDirectoryAt_of_append hnode)
    rw [hassoc] at hnode ⊢
    have hdirectory := h.isDirectoryAt_of_append (hassoc ▸ hnode)
    rw [List.foldlM_cons, step_name hdirectory hname hwidth hnext]
    exact ih hnode

end Proper

/-! ### Paths -/

variable {path base : Path}

theorem isDirectory_of_locate (h : tree.locate path = .ok location) :
    tree.isDirectory path = tree.isDirectoryAt location := by
  rw [isDirectory, node?, h, isDirectoryAt]
  cases hnode : tree.nodeAt? location <;> simp [hnode, Except.toOption]

theorem pathExists_of_locate (h : tree.locate path = .ok location) :
    tree.pathExists path = (tree.nodeAt? location).isSome := by
  rw [pathExists, node?, h]
  cases hnode : tree.nodeAt? location <;> simp [hnode, Except.toOption]

theorem exists_locate_of_pathExists (h : tree.pathExists path) :
    ∃ location, tree.locate path = .ok location ∧ (tree.nodeAt? location).isSome := by
  cases hlocate : tree.locate path with
  | ok location => exact ⟨location, rfl, (pathExists_of_locate hlocate).symm.trans h⟩
  | error e =>
    rw [pathExists, node?, hlocate] at h
    cases h

theorem isFile_of_locate (h : tree.locate path = .ok location) :
    tree.isFile path ↔ ∃ content, tree.nodeAt? location = some (.file content) := by
  rw [isFile, node?, h]
  cases hnode : tree.nodeAt? location with
  | none => simp [hnode, Except.toOption]
  | some node => cases node <;> simp [hnode, Except.toOption, Node.isDirectory]

theorem exists_locate_of_isFile (h : tree.isFile path) :
    ∃ location, tree.locate path = .ok location := by
  cases hlocate : tree.locate path with
  | ok location => exact ⟨location, rfl⟩
  | error e =>
    rw [isFile, node?, hlocate] at h
    cases h

/-- Where the segments of a path start. -/
def origin (tree : Tree) (path : Path) : Location :=
  if path.isAbsolute then [] else tree.workingDirectory

theorem locate_eq (hne : path.spelling ≠ []) (hwidth : path.spelling.width ≤ maxPath) :
    tree.locate path = path.segments.foldlM tree.step (tree.origin path) := by
  have hempty : path.spelling.isEmpty = false := by simpa using hne
  rw [locate, hempty, if_neg Bool.false_ne_true, if_neg (Nat.not_lt.2 hwidth), origin]

theorem width_le_of_locate (h : tree.locate path = .ok location) :
    path.spelling ≠ [] ∧ path.spelling.width ≤ maxPath := by
  unfold locate at h
  split at h
  · cases h
  · split at h
    · cases h
    · rename_i hempty hwidth
      exact ⟨by simpa using hempty, Nat.not_lt.1 hwidth⟩

/-- A joined name is one step on from the place of the base. -/
theorem locate_join (hbase : tree.locate base = .ok location) (hname : '/' ∉ name)
    (hwidth : (base.join ⟨name⟩).spelling.width ≤ maxPath) :
    tree.locate (base.join ⟨name⟩) = tree.step location name := by
  obtain ⟨hne, hbaseWidth⟩ := width_le_of_locate hbase
  rw [locate_eq hne hbaseWidth] at hbase
  have hjoin : (base.join ⟨name⟩).spelling ≠ [] := by
    rw [Path.join_eq hne (Path.isAbsolute_mk_of_not_mem hname)]
    simp
  have hstem : (Text.fields '/' base.stem).foldlM tree.step (tree.origin base) = .ok location := by
    rcases base.segments_cases with hstem | hstem
    · rw [← hstem, hbase]
    · exact foldlM_step_concat (hstem ▸ hbase)
  rw [locate_eq hjoin hwidth, Path.segments_join hne hname, origin,
    Path.isAbsolute_join hne (Path.isAbsolute_mk_of_not_mem hname), ← origin,
    foldlM_append_of_ok hstem, foldlM_singleton]

end Tree
end Reindent
