import Reindent.Proofs.Discovery.Search

/-!
# Reindent.Proofs.Discovery.Targets

The targets of a run, from the arguments and patterns as sets.

* `Target.identity`       — a target up to the spelling of its path.
* `Lists`                 — the two groups of targets, and what belongs to each.
* `find_lists`            — a discovery has them.
* `find_of_same_members`  — arguments and patterns in another order, or repeated, have the same
  targets, up to the spelling of paths that are spelled in several ways.
-/

namespace Reindent

/-- A target up to the spelling of its path. -/
def Target.identity (target : Target) : List Component × Bool :=
  (target.path.components, target.explicit)

namespace Discovery

open Reindent.Path (Before)

variable {tree : Tree} {root : Path} {paths paths' : List Path}
  {patterns patterns' exclude : List Text} {named walked named' walked' : List Path}
  {path : Path} {discovery : Discovery}

/-- The targets that are named and those that are walked to. -/
structure Lists (tree : Tree) (root : Path) (paths : List Path) (patterns exclude : List Text)
    (named walked : List Path) : Prop where
  named_sorted : named.Pairwise Before
  walked_sorted : walked.Pairwise Before
  /-- A start that is no directory is named, in its first spelling. -/
  mem_named : ∀ path, path ∈ named ↔ IsFirst (plainStarts tree root paths) path
  of_mem_walked : ∀ path ∈ walked, Walked tree root paths patterns exclude path
  walked_not_named : ∀ path ∈ walked, ∀ other ∈ named, other.components ≠ path.components
  /-- What the search keeps is listed, in some spelling. -/
  complete : ∀ path, Walked tree root paths patterns exclude path →
    ∃ other ∈ named ++ walked, other.components = path.components

/-- No two spellings of one path are among the paths. -/
def SpelledAlike (among : Path → Prop) : Prop :=
  ∀ p q, among p → among q → p.components = q.components → p = q

theorem find_lists (h : find tree root paths patterns exclude = .ok discovery) :
    ∃ named walked, Lists tree root paths patterns exclude named walked ∧
      discovery.targets = named.map (⟨·, true⟩) ++ walked.map (⟨·, false⟩) := by
  obtain ⟨kept, hfound, hkept⟩ := found_spec h
  refine ⟨discovery.named, _, ?_, rfl⟩
  have hmem : ∀ path, path ∈ discovery.found.filter (fun path => !discovery.named.any path.same) ↔
      path ∈ discovery.found ∧ ∀ other ∈ discovery.named, other.components ≠ path.components := by
    intro path
    rw [List.mem_filter, Bool.not_eq_true', List.any_eq_false]
    simp only [Path.same_iff, ne_comm, ne_eq]
  refine
    { named_sorted := named_eq h ▸ pairwise_pathSet _
      walked_sorted := (pairwise_found h).filter _
      mem_named := fun path => by rw [named_eq h, mem_pathSet]
      of_mem_walked := fun path hpath => ?_
      walked_not_named := fun path hpath => ((hmem path).1 hpath).2
      complete := fun path hpath => ?_ }
  · have hpath := ((hmem path).1 hpath).1
    rw [hfound, mem_pathSet] at hpath
    exact (hkept path).1 hpath.mem
  · obtain ⟨first, hfirst, hcomponents⟩ := IsFirst.exists_of_mem ((hkept path).2 hpath)
    by_cases hnamed : ∃ other ∈ discovery.named, other.components = path.components
    · obtain ⟨other, hother, hsame⟩ := hnamed
      exact ⟨other, List.mem_append_left _ hother, hsame⟩
    · have hfirstFound : first ∈ discovery.found := by rw [hfound, mem_pathSet]; exact hfirst
      refine ⟨first, List.mem_append_right _ ((hmem first).2 ⟨hfirstFound, ?_⟩), hcomponents⟩
      intro other hother hsame
      exact hnamed ⟨other, hother, hsame.trans hcomponents⟩

/-! ### Other arguments with the same members -/

section Members

variable (hpaths : ∀ path, path ∈ paths' ↔ path ∈ paths)
include hpaths

theorem mem_starts_congr : path ∈ starts root paths' ↔ path ∈ starts root paths := by
  have hempty : paths' = [] ↔ paths = [] := by
    simp only [List.eq_nil_iff_forall_not_mem, hpaths]
  by_cases hnil : paths = []
  · rw [hnil, hempty.2 hnil]
  · have hnil' : paths' ≠ [] := fun h => hnil (hempty.1 h)
    simp [starts, hnil, hnil', hpaths]

theorem mem_plainStarts_congr :
    path ∈ plainStarts tree root paths' ↔ path ∈ plainStarts tree root paths := by
  simp only [plainStarts, List.mem_filter, mem_starts_congr hpaths]

variable (hpatterns : ∀ pattern, pattern ∈ patterns' ↔ pattern ∈ patterns)
include hpatterns

theorem walked_congr :
    Walked tree root paths' patterns' exclude path ↔
      Walked tree root paths patterns exclude path := by
  have hyields : Yields tree (starts root paths') patterns' path ↔
      Yields tree (starts root paths) patterns path := by
    simp only [Yields, mem_starts_congr hpaths, hpatterns]
  constructor
  · rintro ⟨h, hfile, hyaml, hexcluded⟩
    exact ⟨hyields.1 h, hfile, hyaml, hexcluded⟩
  · rintro ⟨h, hfile, hyaml, hexcluded⟩
    exact ⟨hyields.2 h, hfile, hyaml, hexcluded⟩

theorem find_isOk_congr :
    (∃ discovery, find tree root paths' patterns' exclude = .ok discovery) ↔
      ∃ discovery, find tree root paths patterns exclude = .ok discovery := by
  simp only [find_isOk, mem_starts_congr hpaths, hpatterns]

end Members

namespace Lists

theorem mem_map_named (h : Lists tree root paths patterns exclude named walked)
    {cs : List Component} :
    cs ∈ named.map Path.components ↔
      ∃ path ∈ plainStarts tree root paths, path.components = cs := by
  simp only [List.mem_map, h.mem_named]
  constructor
  · rintro ⟨path, hpath, rfl⟩
    exact ⟨path, hpath.mem, rfl⟩
  · rintro ⟨path, hpath, rfl⟩
    exact IsFirst.exists_of_mem hpath

theorem mem_map_walked (h : Lists tree root paths patterns exclude named walked)
    {cs : List Component} :
    cs ∈ walked.map Path.components ↔
      cs ∉ named.map Path.components ∧
        ∃ path, Walked tree root paths patterns exclude path ∧ path.components = cs := by
  constructor
  · rintro hcs
    obtain ⟨path, hpath, rfl⟩ := List.mem_map.1 hcs
    refine ⟨fun hnamed => ?_, path, h.of_mem_walked path hpath, rfl⟩
    obtain ⟨other, hother, hsame⟩ := List.mem_map.1 hnamed
    exact h.walked_not_named path hpath other hother hsame
  · rintro ⟨hnamed, path, hpath, rfl⟩
    obtain ⟨other, hother, hsame⟩ := h.complete path hpath
    rcases List.mem_append.1 hother with hother | hother
    · exact absurd (List.mem_map.2 ⟨other, hother, hsame⟩) hnamed
    · exact List.mem_map.2 ⟨other, hother, hsame⟩

theorem mem_walked (h : Lists tree root paths patterns exclude [] walked)
    (halike : SpelledAlike (Walked tree root paths patterns exclude)) :
    path ∈ walked ↔ Walked tree root paths patterns exclude path := by
  constructor
  · exact h.of_mem_walked path
  · intro hpath
    obtain ⟨other, hother, hsame⟩ := h.complete path hpath
    rw [← halike other path (h.of_mem_walked other hother) hpath hsame]
    exact hother

variable (h : Lists tree root paths patterns exclude named walked)
  (h' : Lists tree root paths' patterns' exclude named' walked')
  (hpaths : ∀ path, path ∈ paths' ↔ path ∈ paths)
include h h' hpaths

theorem map_named_eq : named'.map Path.components = named.map Path.components := by
  refine map_components_eq h'.named_sorted h.named_sorted fun cs => ?_
  simp only [h'.mem_map_named, h.mem_map_named, mem_plainStarts_congr hpaths]

theorem map_walked_eq (hpatterns : ∀ pattern, pattern ∈ patterns' ↔ pattern ∈ patterns) :
    walked'.map Path.components = walked.map Path.components := by
  refine map_components_eq h'.walked_sorted h.walked_sorted fun cs => ?_
  simp only [h'.mem_map_walked, h.mem_map_walked, map_named_eq h h' hpaths,
    walked_congr hpaths hpatterns]

end Lists

theorem eq_of_map_components_eq {among : Path → Prop} (hspelled : SpelledAlike among)
    (hpaths : ∀ path ∈ paths, among path) (hpaths' : ∀ path ∈ paths', among path)
    (h : paths'.map Path.components = paths.map Path.components) : paths' = paths := by
  induction paths' generalizing paths with
  | nil => exact (List.map_eq_nil_iff.1 h.symm).symm
  | cons path' rest' ih =>
    cases paths with
    | nil => cases h
    | cons path rest =>
      rw [List.forall_mem_cons] at hpaths hpaths'
      rw [List.map_cons, List.map_cons, List.cons.injEq] at h
      rw [hspelled path' path hpaths'.1 hpaths.1 h.1, ih hpaths.2 hpaths'.2 h.2]

/-- A discovery lists the starts that are no directories and then what the search keeps, each group
in order. The arguments and patterns count as sets: with the same members they have the same
targets, where a path that has several spellings can take another one of these. -/
theorem find_of_same_members (h : find tree root paths patterns exclude = .ok discovery) :
    (∃ named walked, Lists tree root paths patterns exclude named walked ∧
      discovery.targets = named.map (⟨·, true⟩) ++ walked.map (⟨·, false⟩)) ∧
    ∀ paths' patterns', (∀ path, path ∈ paths' ↔ path ∈ paths) →
      (∀ pattern, pattern ∈ patterns' ↔ pattern ∈ patterns) →
      ∃ discovery', find tree root paths' patterns' exclude = .ok discovery' ∧
        discovery'.targets.map Target.identity = discovery.targets.map Target.identity ∧
        (SpelledAlike (· ∈ plainStarts tree root paths) →
          SpelledAlike (Walked tree root paths patterns exclude) →
          discovery'.targets = discovery.targets) := by
  refine ⟨find_lists h, fun paths' patterns' hpaths hpatterns => ?_⟩
  obtain ⟨discovery', h'⟩ := (find_isOk_congr hpaths hpatterns).2 ⟨discovery, h⟩
  obtain ⟨named, walked, hlists, htargets⟩ := find_lists h
  obtain ⟨named', walked', hlists', htargets'⟩ := find_lists h'
  have hnamed := Lists.map_named_eq hlists hlists' hpaths
  have hwalked := Lists.map_walked_eq hlists hlists' hpaths hpatterns
  refine ⟨discovery', h', ?_, fun hplain hkept => ?_⟩
  · have hidentity : ∀ (explicit : Bool) (paths : List Path),
        (paths.map fun path => (⟨path, explicit⟩ : Target)).map Target.identity =
          (paths.map Path.components).map (·, explicit) := by
      intro explicit paths
      simp [Target.identity]
    rw [htargets, htargets', List.map_append, List.map_append, hidentity, hidentity, hidentity,
      hidentity, hnamed, hwalked]
  · have hnamedEq : named' = named := by
      refine eq_of_map_components_eq hplain (fun path hpath => ?_) (fun path hpath => ?_) hnamed
      · exact ((hlists.mem_named path).1 hpath).mem
      · exact (mem_plainStarts_congr hpaths).1 ((hlists'.mem_named path).1 hpath).mem
    have hwalkedEq : walked' = walked := by
      refine eq_of_map_components_eq hkept hlists.of_mem_walked (fun path hpath => ?_) hwalked
      exact (walked_congr hpaths hpatterns).1 (hlists'.of_mem_walked path hpath)
    rw [htargets, htargets', hnamedEq, hwalkedEq]

/-! ### A directory with one file -/

def oneFile : Tree where
  entries := [(["a".toList], .directory), (["a".toList, "b.yml".toList], .file ⟨#[]⟩)]

/-- With the directory in front and everything twice, the file is named and walked to as before. -/
theorem find_of_same_members_oneFile :
    ∃ discovery, find oneFile (.ofString ".") [.ofString "a", .ofString "a/b.yml", .ofString "a"]
        (defaultPatterns.reverse ++ defaultPatterns) [] = .ok discovery ∧
      discovery.targets.map Target.identity =
        [([.here, .name "a".toList, .name "b.yml".toList], true),
          ([.name "a".toList, .name "b.yml".toList], false)] := by
  have h : find oneFile (.ofString ".") [.ofString "a/b.yml", .ofString "a"] defaultPatterns [] =
      .ok ⟨[.ofString "./a/b.yml"], [.ofString "a/b.yml"]⟩ := by cbv
  obtain ⟨-, hsame⟩ := find_of_same_members h
  obtain ⟨discovery, hfind, htargets, -⟩ := hsame
    [.ofString "a", .ofString "a/b.yml", .ofString "a"] (defaultPatterns.reverse ++ defaultPatterns)
    (by grind) (by simp [or_self])
  exact ⟨discovery, hfind, htargets.trans (by cbv)⟩

/-- Of two spellings of a file, the targets have the one that comes first. -/
theorem targets_of_twoSpellings :
    ∃ discovery discovery',
      find oneFile (.ofString ".") [.ofString "a//b.yml", .ofString "a/b.yml"] defaultPatterns [] =
        .ok discovery ∧
      find oneFile (.ofString ".") [.ofString "a/b.yml", .ofString "a//b.yml"] defaultPatterns [] =
        .ok discovery' ∧
      discovery.targets = [⟨.ofString "./a//b.yml", true⟩] ∧
      discovery'.targets = [⟨.ofString "./a/b.yml", true⟩] ∧
      discovery.targets ≠ discovery'.targets := by
  refine ⟨⟨[.ofString "./a//b.yml"], []⟩, ⟨[.ofString "./a/b.yml"], []⟩, ?_, ?_, ?_, ?_, ?_⟩
  · cbv
  · cbv
  · rfl
  · rfl
  · decide

end Discovery

end Reindent
