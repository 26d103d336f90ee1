import Reindent.Proofs.Answers
import Reindent.Proofs.Discovery.Set

/-!
# Reindent.Proofs.Discovery.Search

What the search for files answers.

* `Yields`         — a pattern names a path in some start that is a directory.
* `searchAll_ok`   — the paths that are found are those that patterns yield.
* `Walked`         — a path that the search keeps.
* `find_ok`        — the two groups of a discovery.
* `find_isOk`      — the search answers if every exclude and every pattern can be read.
-/

namespace Reindent

namespace Discovery

variable {tree : Tree} {root : Path} {paths : List Path} {patterns exclude : List Text}
  {path : Path} {discovery : Discovery}

/-! ### What patterns name -/

/-- A pattern names the path in a start that is a directory. -/
def Yields (tree : Tree) (starts : List Path) (patterns : List Text) (path : Path) : Prop :=
  ∃ start ∈ starts, tree.isDirectory start ∧
    ∃ pattern ∈ patterns, ∃ found, search tree start pattern = .ok found ∧ path ∈ found

theorem searchAll_eq_ok {starts found : List Path} :
    searchAll tree starts patterns = .ok found ↔
      ∃ lists, ((starts.filter tree.isDirectory).mapM fun start =>
        patterns.mapM fun pattern => search tree start pattern) = .ok lists ∧
          lists.flatten.flatten = found := by
  unfold searchAll
  cases (starts.filter tree.isDirectory).mapM fun start =>
    patterns.mapM fun pattern => search tree start pattern
  case error e => simp [bind, Except.bind]
  case ok lists => simp [bind, Except.bind, pure, Except.pure]

theorem mem_searchAll {starts found : List Path} (h : searchAll tree starts patterns = .ok found) :
    path ∈ found ↔ Yields tree starts patterns path := by
  obtain ⟨lists, hlists, rfl⟩ := searchAll_eq_ok.1 h
  simp only [List.mem_flatten, mem_of_mapM_eq_ok hlists, List.mem_filter, Yields]
  constructor
  · rintro ⟨found, ⟨answers, ⟨start, ⟨hstart, hdirectory⟩, hanswers⟩, hfound⟩, hpath⟩
    rw [mem_of_mapM_eq_ok hanswers] at hfound
    obtain ⟨pattern, hpattern, hsearch⟩ := hfound
    exact ⟨start, hstart, hdirectory, pattern, hpattern, found, hsearch, hpath⟩
  · rintro ⟨start, hstart, hdirectory, pattern, hpattern, found, hsearch, hpath⟩
    obtain ⟨answers, hanswers⟩ :=
      exists_mapM_eq_ok.1 ⟨lists, hlists⟩ start (List.mem_filter.2 ⟨hstart, hdirectory⟩)
    have hfound : found ∈ answers := (mem_of_mapM_eq_ok hanswers).2 ⟨pattern, hpattern, hsearch⟩
    exact ⟨found, ⟨answers, ⟨start, ⟨hstart, hdirectory⟩, hanswers⟩, hfound⟩, hpath⟩

/-- The search answers if every pattern can be read in every start that is a directory. -/
theorem searchAll_isOk {starts : List Path} :
    (∃ found, searchAll tree starts patterns = .ok found) ↔
      ∀ start ∈ starts, tree.isDirectory start → ∀ pattern ∈ patterns,
        ∃ found, search tree start pattern = .ok found := by
  have hlists : (∃ found, searchAll tree starts patterns = .ok found) ↔
      ∃ lists, ((starts.filter tree.isDirectory).mapM fun start =>
        patterns.mapM fun pattern => search tree start pattern) = .ok lists := by
    simp only [searchAll_eq_ok]
    exact ⟨fun ⟨_, lists, h, _⟩ => ⟨lists, h⟩, fun ⟨lists, h⟩ => ⟨_, lists, h, rfl⟩⟩
  simp only [hlists, exists_mapM_eq_ok, List.mem_filter, and_imp]

/-! ### The two groups -/

/-- Some exclude fits the path. -/
def Excluded (root : Path) (exclude : List Text) (path : Path) : Prop :=
  ∃ pattern ∈ exclude, ∃ tokens, readPattern pattern = .ok tokens ∧ isExcluded [tokens] root path

/-- The starts that are no directories. -/
def plainStarts (tree : Tree) (root : Path) (paths : List Path) : List Path :=
  (starts root paths).filter fun start => !tree.isDirectory start

/-- A path that a pattern names and that the search keeps. -/
structure Walked (tree : Tree) (root : Path) (paths : List Path) (patterns exclude : List Text)
    (path : Path) : Prop where
  yields : Yields tree (starts root paths) patterns path
  isFile : tree.isFile path
  isYaml : path.isYaml
  not_excluded : ¬ Excluded root exclude path

theorem isExcluded_iff {excludes : List (List Glob.Token)}
    (h : exclude.mapM readPattern = .ok excludes) :
    isExcluded excludes root path ↔ Excluded root exclude path := by
  have hany : isExcluded excludes root path ↔
      ∃ tokens ∈ excludes, isExcluded [tokens] root path := by
    simp [isExcluded]
  simp only [hany, mem_of_mapM_eq_ok h, Excluded]
  constructor
  · rintro ⟨tokens, ⟨pattern, hpattern, htokens⟩, hfits⟩
    exact ⟨pattern, hpattern, tokens, htokens, hfits⟩
  · rintro ⟨pattern, hpattern, tokens, htokens, hfits⟩
    exact ⟨tokens, ⟨pattern, hpattern, htokens⟩, hfits⟩

theorem find_eq_ok :
    find tree root paths patterns exclude = .ok discovery ↔
      ∃ excludes found, exclude.mapM readPattern = .ok excludes ∧
        searchAll tree (starts root paths) patterns = .ok found ∧
        discovery = ⟨pathSet (plainStarts tree root paths),
          pathSet (found.filter fun path =>
            tree.isFile path && path.isYaml && !isExcluded excludes root path)⟩ := by
  unfold find plainStarts
  cases exclude.mapM readPattern
  case error e => simp [bind, Except.bind]
  case ok excludes =>
    cases hfound : searchAll tree (starts root paths) patterns
    case error e => simp [bind, Except.bind, hfound]
    case ok found => simp [bind, Except.bind, pure, Except.pure, hfound, eq_comm]

/-- The search answers if every exclude can be read, and every pattern in every start that is a
directory. -/
theorem find_isOk :
    (∃ discovery, find tree root paths patterns exclude = .ok discovery) ↔
      (∀ pattern ∈ exclude, ∃ tokens, readPattern pattern = .ok tokens) ∧
        ∀ start ∈ starts root paths, tree.isDirectory start → ∀ pattern ∈ patterns,
          ∃ found, search tree start pattern = .ok found := by
  rw [← exists_mapM_eq_ok, ← searchAll_isOk]
  simp only [find_eq_ok]
  constructor
  · rintro ⟨_, excludes, found, hexcludes, hfound, -⟩
    exact ⟨⟨excludes, hexcludes⟩, found, hfound⟩
  · rintro ⟨⟨excludes, hexcludes⟩, found, hfound⟩
    exact ⟨_, excludes, found, hexcludes, hfound, rfl⟩

section Groups

variable (h : find tree root paths patterns exclude = .ok discovery)
include h

theorem named_eq : discovery.named = pathSet (plainStarts tree root paths) := by
  obtain ⟨excludes, found, -, -, rfl⟩ := find_eq_ok.1 h
  rfl

theorem pairwise_found : discovery.found.Pairwise Path.Before := by
  obtain ⟨excludes, found, -, -, rfl⟩ := find_eq_ok.1 h
  exact pairwise_pathSet _

/-- What is found is what the search keeps, up to spelling. -/
theorem found_spec :
    ∃ kept, discovery.found = pathSet kept ∧
      ∀ path, path ∈ kept ↔ Walked tree root paths patterns exclude path := by
  obtain ⟨excludes, found, hexcludes, hfound, rfl⟩ := find_eq_ok.1 h
  refine ⟨_, rfl, fun path => ?_⟩
  simp only [List.mem_filter, mem_searchAll hfound, Bool.and_eq_true, Bool.not_eq_true',
    ← Bool.not_eq_true, isExcluded_iff hexcludes]
  constructor
  · rintro ⟨hyields, ⟨hfile, hyaml⟩, hexcluded⟩
    exact ⟨hyields, hfile, hyaml, hexcluded⟩
  · rintro ⟨hyields, hfile, hyaml, hexcluded⟩
    exact ⟨hyields, ⟨hfile, hyaml⟩, hexcluded⟩

end Groups

end Discovery

end Reindent
