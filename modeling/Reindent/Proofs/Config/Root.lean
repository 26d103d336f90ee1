import Reindent.Config.Settings
import Reindent.Proofs.Path.Ancestors
import Reindent.Proofs.Tree.Follow

/-!
# Reindent.Proofs.Config.Root

The repository root that is found from a relative start.

* `isRoot_iff_leadsToRoot` — the search stops at a path whose components lead to a directory that
  holds one of the names.
* `IsNearestRoot`          — a path leads to the innermost such directory around the start.
* `StopsAt`                — the walk outwards along the spelling of the start ends at a place.
* `findRoot_nearest`       — the walk finds the nearest root unless it stops at a directory that a
  later `..` of the start has left again.
-/

namespace Reindent

namespace Settings

variable {tree : Tree} {start directory root path : Path} {place other : Location} {name : Text}

/-! ### Roots -/

/-- The names of configuration files and of a repository. -/
def rootNames : List Text :=
  fileNames.map (fun (_, name) => name.spelling) ++ [".git".toList]

/-- The directory holds something with one of the names. -/
def Marked (tree : Tree) (place : Location) : Prop :=
  ∃ name ∈ rootNames, (tree.nodeAt? (place ++ [name])).isSome

theorem proper_of_mem_rootNames (h : name ∈ rootNames) : (Component.name name).Proper := by
  revert name
  decide

theorem isRoot_iff :
    isRoot tree directory ↔ ∃ name ∈ rootNames, tree.pathExists (directory.join ⟨name⟩) := by
  simp [isRoot, rootNames, fileNames, Path.ofString, or_assoc]

theorem Marked.isDirectoryAt (hproper : tree.Proper) (h : Marked tree place) :
    tree.isDirectoryAt place := by
  obtain ⟨name, -, hnode⟩ := h
  exact hproper.isDirectoryAt_of_append hnode

/-- The components lead to a directory that holds one of the names. -/
def LeadsToRoot (tree : Tree) (components : List Component) : Prop :=
  ∃ place, tree.follow tree.workingDirectory components = .ok place ∧ Marked tree place

/-- The system opens the paths of all names in the directory. -/
def Opens (directory : Path) : Prop :=
  ∀ name ∈ rootNames, (directory.join ⟨name⟩).spelling.width ≤ Tree.maxPath

instance (directory : Path) : Decidable (Opens directory) :=
  inferInstanceAs (Decidable (∀ name ∈ rootNames, _))

theorem Opens.width_le (h : Opens directory) : directory.spelling.width ≤ Tree.maxPath :=
  (Path.width_le_width_join rfl).trans (h ".git".toList (by decide))

theorem Opens.of_isPrefix (h : Opens start) (hfront : directory.spelling <+: start.spelling) :
    Opens directory := by
  intro name hname
  have htail := Path.isAbsolute_mk_of_not_mem (proper_of_mem_rootNames hname).2.2.2
  exact (Path.width_join_le_of_isPrefix htail hfront).trans (h name hname)

theorem isRoot_iff_leadsToRoot (hproper : tree.Proper) (hrelative : directory.isAbsolute = false)
    (hopens : Opens directory) :
    isRoot tree directory ↔ LeadsToRoot tree directory.components := by
  have hexists : ∀ name ∈ rootNames, tree.pathExists (directory.join ⟨name⟩) ↔ _ :=
    fun name hname => hproper.pathExists_join_iff hrelative (proper_of_mem_rootNames hname)
      (hopens name hname)
  rw [isRoot_iff]
  constructor
  · rintro ⟨name, hname, hjoin⟩
    obtain ⟨place, hplace, hnode⟩ := (hexists name hname).1 hjoin
    exact ⟨place, hplace, name, hname, hnode⟩
  · rintro ⟨place, hplace, name, hname, hnode⟩
    exact ⟨name, hname, (hexists name hname).2 ⟨place, hplace, hnode⟩⟩

/-! ### What the search is to find -/

/-- The path leads to the place. The empty path, which names nothing by itself, stands in front of
a name for the working directory. -/
def Denotes (tree : Tree) (path : Path) (place : Location) : Prop :=
  tree.locate path = .ok place ∨ path.spelling = [] ∧ place = tree.workingDirectory

/-- Where the start is. If it is not in the tree, that is the last place on the way to it. -/
def reach (tree : Tree) (start : Path) : Location :=
  tree.furthest tree.workingDirectory start.components

/-- The place is that of the start, or a directory around it in the tree, which begins at the
working directory. -/
def Encloses (tree : Tree) (start : Path) (place : Location) : Prop :=
  place <+: reach tree start ∧ (tree.workingDirectory <+: place ∨ place = reach tree start)

/-- The path leads to the innermost place around the start that holds one of the names. If there is
none, the path is the start. -/
def IsNearestRoot (tree : Tree) (start root : Path) : Prop :=
  (∃ place, Denotes tree root place ∧ Encloses tree start place ∧ Marked tree place ∧
      ∀ other, Encloses tree start other → Marked tree other → other <+: place) ∨
    (∀ place, Encloses tree start place → ¬ Marked tree place) ∧ root = start

theorem Denotes.eq (h : Denotes tree path place) (h' : Denotes tree path other) :
    place = other := by
  rcases h with h | ⟨hempty, rfl⟩ <;> rcases h' with h' | ⟨hempty', rfl⟩
  · exact Except.ok.inj (h.symm.trans h')
  · exact absurd hempty' (Tree.width_le_of_locate h).1
  · exact absurd hempty (Tree.width_le_of_locate h').1
  · rfl

theorem follow_of_denotes (hrelative : path.isAbsolute = false) (h : Denotes tree path place) :
    tree.follow tree.workingDirectory path.components = .ok place := by
  rcases h with h | ⟨hempty, rfl⟩
  · exact Tree.follow_of_locate hrelative h
  · obtain ⟨spelling⟩ := path
    cases hempty
    rfl

theorem denotes_of_follow (hrelative : path.isAbsolute = false)
    (hwidth : path.spelling.width ≤ Tree.maxPath) (hdirectory : tree.isDirectoryAt place)
    (h : tree.follow tree.workingDirectory path.components = .ok place) :
    Denotes tree path place := by
  by_cases hempty : path.spelling = []
  · obtain ⟨spelling⟩ := path
    cases hempty
    exact .inr ⟨rfl, (Except.ok.inj h).symm⟩
  · exact .inl (Tree.locate_of_follow hrelative hempty hwidth hdirectory h)

theorem exists_follow_of_encloses (h : Encloses tree start place) :
    ∃ front, front <+: start.components ∧
      tree.follow tree.workingDirectory front = .ok place := by
  obtain ⟨hreach, hworking | rfl⟩ := h
  · rcases Tree.exists_follow_of_isPrefix hreach with hplace | hfront
    · have hlength := Nat.le_antisymm hworking.length_le hplace.length_le
      rw [← hworking.eq_of_length hlength]
      exact ⟨[], List.nil_prefix, rfl⟩
    · exact hfront
  · exact Tree.exists_follow_furthest _ _ _

/-! ### The walk outwards -/

/-- The longest front of the components of the start that leads to a root leads to the place. -/
def StopsAt (tree : Tree) (start : Path) (place : Location) : Prop :=
  ∃ front, LongestFront (LeadsToRoot tree) start.components front ∧
    tree.follow tree.workingDirectory front = .ok place

theorem StopsAt.marked (h : StopsAt tree start place) : Marked tree place := by
  obtain ⟨front, hfront, hplace⟩ := h
  obtain ⟨place', hplace', hmarked⟩ := hfront.holds
  cases hplace.symm.trans hplace'
  exact hmarked

theorem StopsAt.isPrefix (h : StopsAt tree start place) (hother : Encloses tree start other)
    (hmarked : Marked tree other) : other <+: place := by
  obtain ⟨front, ⟨⟨rest, hrest⟩, -, hlongest⟩, hplace⟩ := h
  -- From the place on, the rest of the way ends below the other root.
  have hreach : other <+: tree.furthest place rest := by
    rw [← Tree.furthest_append hplace, hrest]
    exact hother.1
  rcases Tree.exists_follow_of_isPrefix hreach with habove | ⟨more, hmore, hfollow⟩
  · exact habove
  · -- So it passes through that one, and the longer front leads to a root, too.
    have hbehind : tree.follow tree.workingDirectory (front ++ more) = .ok other :=
      Tree.follow_append.2 ⟨place, hplace, hfollow⟩
    have hle := hlongest (front ++ more) (hrest ▸ (List.prefix_append_right_inj front).2 hmore)
      ⟨other, hbehind, hmarked⟩
    obtain rfl : more = [] := by simpa using hle.length_le
    cases hfollow
    exact List.prefix_rfl

theorem StopsAt.encloses (h : StopsAt tree start place) (hup : .up ∉ start.components) :
    Encloses tree start place := by
  obtain ⟨front, ⟨⟨rest, hrest⟩, -, -⟩, hplace⟩ := h
  have hdown : ∀ c ∈ front ++ rest, c.Proper ∧ c ≠ .up := by
    rw [hrest]
    exact fun c hc => ⟨Path.proper_of_mem_components hc, fun heq => hup (heq ▸ hc)⟩
  rw [List.forall_mem_append] at hdown
  refine ⟨?_, .inl (Tree.isPrefix_of_follow hdown.1 hplace)⟩
  rw [reach, ← hrest, Tree.furthest_append hplace]
  exact Tree.isPrefix_furthest hdown.2

section Search

variable (hproper : tree.Proper) (hrelative : start.isAbsolute = false) (hopens : Opens start)
include hproper hrelative hopens

theorem isRoot_ancestor_iff :
    ∀ ancestor ∈ start.ancestors,
      isRoot tree ancestor = true ↔ LeadsToRoot tree ancestor.components :=
  fun _ hmem => isRoot_iff_leadsToRoot hproper (Path.isAbsolute_of_mem_ancestors hrelative hmem)
    (hopens.of_isPrefix (Path.isPrefix_of_mem_ancestors hrelative hmem))

/-- The search finds a path to the place that the walk stops at. -/
theorem denotes_findRoot (h : StopsAt tree start place) :
    Denotes tree (findRoot tree start) place := by
  have hroot := isRoot_ancestor_iff hproper hrelative hopens
  obtain ⟨front, hfront, hplace⟩ := id h
  rw [findRoot]
  cases hfind : start.ancestors.find? (isRoot tree) with
  | none =>
    exact absurd hfront.holds
      (Path.not_of_find?_ancestors_eq_none hrelative hroot hfind hfront.isPrefix)
  | some root =>
    have hlongest := Path.longestFront_of_find?_ancestors hrelative hroot hfind
    have hmem := List.mem_of_find?_eq_some hfind
    rw [hfront.eq hlongest] at hplace
    exact denotes_of_follow (Path.isAbsolute_of_mem_ancestors hrelative hmem)
      (hopens.of_isPrefix (Path.isPrefix_of_mem_ancestors hrelative hmem)).width_le
      (h.marked.isDirectoryAt hproper) hplace

theorem findRoot_of_not_stopsAt (h : ∀ place, ¬ StopsAt tree start place) :
    findRoot tree start = start ∧
      ∀ front, front <+: start.components → ¬ LeadsToRoot tree front := by
  have hroot := isRoot_ancestor_iff hproper hrelative hopens
  rw [findRoot]
  cases hfind : start.ancestors.find? (isRoot tree) with
  | none =>
    exact ⟨rfl, fun front hfront =>
      Path.not_of_find?_ancestors_eq_none hrelative hroot hfind hfront⟩
  | some root =>
    have hlongest := Path.longestFront_of_find?_ancestors hrelative hroot hfind
    obtain ⟨place, hplace, -⟩ := hlongest.holds
    exact absurd ⟨root.components, hlongest, hplace⟩ (h place)

theorem isNearestRoot_findRoot_iff :
    IsNearestRoot tree start (findRoot tree start) ↔
      ∀ place, StopsAt tree start place → Encloses tree start place := by
  constructor
  · intro hnearest place hstop
    have hdenotes := denotes_findRoot hproper hrelative hopens hstop
    obtain ⟨found, hfound, hencloses, -⟩ | ⟨-, hstart⟩ := hnearest
    · rwa [hdenotes.eq hfound]
    · -- The start itself leads to a root: its way does not break off.
      rw [hstart] at hdenotes
      have hreach := Tree.furthest_of_follow (follow_of_denotes hrelative hdenotes)
      rw [← reach] at hreach
      exact ⟨hreach ▸ List.prefix_rfl, .inr hreach.symm⟩
  · intro hencloses
    by_cases hstop : ∃ place, StopsAt tree start place
    · obtain ⟨place, hstop⟩ := hstop
      exact .inl ⟨place, denotes_findRoot hproper hrelative hopens hstop, hencloses place hstop,
        hstop.marked, fun other => hstop.isPrefix⟩
    · rw [not_exists] at hstop
      obtain ⟨hstart, hnone⟩ := findRoot_of_not_stopsAt hproper hrelative hopens hstop
      refine .inr ⟨fun place hplace hmarked => ?_, hstart⟩
      obtain ⟨front, hfront, hfollow⟩ := exists_follow_of_encloses hplace
      exact hnone front hfront ⟨place, hfollow, hmarked⟩

end Search

/-- The search from a relative start walks outwards along the spelling, and ends at the place that
the longest front of the start leads to among those that lead to a marked place; it finds the start
itself if there is none. That is the nearest root exactly if the place encloses the start, which a
`..` further along the start can undo: the walk then goes into directories that the start is not
in. Without `..` it is the nearest root. -/
theorem findRoot_nearest (tree : Tree) (start : Path) (hproper : tree.Proper)
    (hrelative : start.isAbsolute = false) (hopens : Opens start) :
    (∀ place, StopsAt tree start place → Denotes tree (findRoot tree start) place) ∧
      ((∀ place, ¬ StopsAt tree start place) → findRoot tree start = start) ∧
      (IsNearestRoot tree start (findRoot tree start) ↔
        ∀ place, StopsAt tree start place → Encloses tree start place) ∧
      (.up ∉ start.components → IsNearestRoot tree start (findRoot tree start)) := by
  have hnearest := isNearestRoot_findRoot_iff hproper hrelative hopens
  exact ⟨fun _ => denotes_findRoot hproper hrelative hopens,
    fun hstop => (findRoot_of_not_stopsAt hproper hrelative hopens hstop).1, hnearest,
    fun hup => hnearest.2 fun _ hstop => hstop.encloses hup⟩

/-- A directory with a configuration file and another one in it. -/
def markedDirectory : Tree where
  entries := [(["work".toList], .directory), (["work".toList, "a".toList], .directory),
    (["work".toList, "a".toList, "indentfix.toml".toList], .file .empty),
    (["work".toList, "a".toList, "b".toList], .directory)]
  workingDirectory := ["work".toList]

/-- The directory is found from inside of it. -/
theorem findRoot_nearest_inside :
    markedDirectory.Proper ∧ Opens (.ofString "./a/b") ∧
      findRoot markedDirectory (.ofString "./a/b") = .ofString "./a" ∧
      IsNearestRoot markedDirectory (.ofString "./a/b") (.ofString "./a") := by
  have hproper : markedDirectory.Proper := by decide
  have hopens : Opens (.ofString "./a/b") := by decide
  have hroot : findRoot markedDirectory (.ofString "./a/b") = .ofString "./a" := by decide
  have hnearest := (findRoot_nearest markedDirectory (.ofString "./a/b") hproper (by decide)
    hopens).2.2.2 (by decide)
  exact ⟨hproper, hopens, hroot, hroot ▸ hnearest⟩

/-- From `a/..`, where the working directory is, the search goes down into `a`. -/
theorem not_findRoot_nearest :
    markedDirectory.Proper ∧ Opens (.ofString "a/..") ∧
      markedDirectory.locate (.ofString "a/..") = .ok markedDirectory.workingDirectory ∧
      findRoot markedDirectory (.ofString "a/..") = .ofString "a" ∧
      ¬ IsNearestRoot markedDirectory (.ofString "a/..") (.ofString "a") := by
  refine ⟨by decide, by decide, by decide, by decide, ?_⟩
  have hplace : markedDirectory.locate (.ofString "a") = .ok ["work".toList, "a".toList] := by
    decide
  rintro (⟨place, hdenotes, hencloses, -⟩ | ⟨-, hstart⟩)
  · obtain rfl := hdenotes.eq (.inl hplace)
    exact absurd hencloses.1 (by decide)
  · exact absurd hstart (by decide)

end Settings
end Reindent
