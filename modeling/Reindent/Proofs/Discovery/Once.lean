import Reindent.Proofs.Discovery.Targets
import Reindent.Proofs.Path.Shown

/-!
# Reindent.Proofs.Discovery.Once

When each file is listed once.

* `ShownOnce`       — no two targets are displayed alike.
* `Candidate`       — a path that a target can have.
* `nodup_shown_iff` — what a listing shows, from what can be listed.
* `shown_once_iff`  — targets are displayed once unless a candidate is displayed like another path.
-/

namespace Reindent

namespace Discovery

variable {tree : Tree} {root : Path} {paths : List Path} {patterns exclude : List Text}
  {named walked : List Path} {path : Path} {discovery : Discovery}

/-- No two targets are displayed alike. -/
def ShownOnce (targets : List Target) (workingDirectory : List Text) : Prop :=
  (targets.map fun target => target.path.shown workingDirectory).Nodup

instance (targets : List Target) (workingDirectory : List Text) :
    Decidable (ShownOnce targets workingDirectory) :=
  inferInstanceAs (Decidable (List.Nodup _))

/-- A path that a target can have. -/
def Candidate (tree : Tree) (root : Path) (paths : List Path) (patterns exclude : List Text)
    (path : Path) : Prop :=
  path ∈ plainStarts tree root paths ∨ Walked tree root paths patterns exclude path

namespace Lists

variable (h : Lists tree root paths patterns exclude named walked)
include h

theorem candidate_of_mem (hpath : path ∈ named ++ walked) :
    Candidate tree root paths patterns exclude path := by
  rcases List.mem_append.1 hpath with hnamed | hwalked
  · exact .inl ((h.mem_named path).1 hnamed).mem
  · exact .inr (h.of_mem_walked path hwalked)

theorem exists_of_candidate (hpath : Candidate tree root paths patterns exclude path) :
    ∃ other ∈ named ++ walked, other.components = path.components := by
  rcases hpath with hplain | hkept
  · obtain ⟨other, hother, hsame⟩ := IsFirst.exists_of_mem hplain
    exact ⟨other, List.mem_append_left _ ((h.mem_named other).2 hother), hsame⟩
  · exact h.complete path hkept

theorem nodup_components_append : ((named ++ walked).map Path.components).Nodup := by
  rw [List.map_append, List.nodup_append]
  refine ⟨nodup_components h.named_sorted, nodup_components h.walked_sorted, ?_⟩
  intro cs hnamed ds hwalked
  obtain ⟨other, hother, rfl⟩ := List.mem_map.1 hnamed
  obtain ⟨path, hpath, rfl⟩ := List.mem_map.1 hwalked
  exact h.walked_not_named path hpath other hother

theorem nodup_shown_iff (workingDirectory : List Text) :
    ((named ++ walked).map fun path => path.shown workingDirectory).Nodup ↔
      ∀ p q, Candidate tree root paths patterns exclude p →
        Candidate tree root paths patterns exclude q →
        p.route workingDirectory = q.route workingDirectory → p.components = q.components := by
  have hdistinct := h.nodup_components_append
  constructor
  · intro hnodup p q hp hq hroute
    obtain ⟨p', hp', hpp'⟩ := h.exists_of_candidate hp
    obtain ⟨q', hq', hqq'⟩ := h.exists_of_candidate hq
    have hroute' : p'.route workingDirectory = q'.route workingDirectory :=
      (Path.route_congr hpp').trans (hroute.trans (Path.route_congr hqq').symm)
    rw [← hpp', ← hqq', List.inj_on_of_nodup_map hnodup hp' hq' (Path.shown_eq_iff.2 hroute')]
  · intro halike
    refine List.Nodup.map_on (fun p hp q hq hpq => ?_) (List.Nodup.of_map _ hdistinct)
    have hroute := Path.shown_eq_iff.1 hpq
    exact List.inj_on_of_nodup_map hdistinct hp hq
      (halike p q (h.candidate_of_mem hp) (h.candidate_of_mem hq) hroute)

end Lists

theorem alike_iff_of_relative {among : Path → Prop} (workingDirectory : List Text)
    (hrelative : ∀ p, among p → p.isAbsolute = false) :
    (∀ p q, among p → among q → p.route workingDirectory = q.route workingDirectory →
        p.components = q.components) ↔
      ∀ p q, among p → among q → p.components ≠ .here :: q.components := by
  constructor
  · intro halike p q hp hq hdot
    have heq := halike p q hp hq
      ((Path.route_eq_iff (hrelative p hp) (hrelative q hq)).2 (.inr (.inl hdot)))
    rw [hdot] at heq
    exact List.cons_ne_self _ _ heq
  · intro hdots p q hp hq hroute
    rcases (Path.route_eq_iff (hrelative p hp) (hrelative q hq)).1 hroute with heq | hdot | hdot
    · exact heq
    · exact absurd hdot (hdots p q hp hq)
    · exact absurd hdot (hdots q p hq hp)

/-- Targets are displayed once exactly if no two paths that a target can have are displayed alike
and are different paths. If none of them is absolute, this can only be a path with a dot in front
and the same one without it. -/
theorem shown_once_iff (h : find tree root paths patterns exclude = .ok discovery)
    (workingDirectory : List Text) :
    (ShownOnce discovery.targets workingDirectory ↔
      ∀ p q, Candidate tree root paths patterns exclude p →
        Candidate tree root paths patterns exclude q →
        p.route workingDirectory = q.route workingDirectory → p.components = q.components) ∧
    ((∀ p, Candidate tree root paths patterns exclude p → p.isAbsolute = false) →
      (ShownOnce discovery.targets workingDirectory ↔
        ∀ p q, Candidate tree root paths patterns exclude p →
          Candidate tree root paths patterns exclude q →
          p.components ≠ .here :: q.components)) := by
  obtain ⟨named, walked, hlists, htargets⟩ := find_lists h
  have hshown : (discovery.targets.map fun target => target.path.shown workingDirectory) =
      (named ++ walked).map fun path => path.shown workingDirectory := by
    rw [htargets, List.map_append, List.map_append, List.map_map, List.map_map]
    rfl
  have honce := hlists.nodup_shown_iff workingDirectory
  rw [← hshown] at honce
  exact ⟨honce, fun hrelative => honce.trans (alike_iff_of_relative workingDirectory hrelative)⟩

/-! ### A file that is named, and in a directory that is named -/

/-- Seen from the directory, the file is listed once, so no other path is displayed like it. -/
theorem shown_once_iff_rootWithFile :
    ∃ discovery,
      find oneFile (.ofString "a") [.ofString "b.yml", .ofString "."] defaultPatterns [] =
        .ok discovery ∧
      discovery.targets = [⟨.ofString "a/b.yml", true⟩] ∧
      ∀ p q,
        Candidate oneFile (.ofString "a") [.ofString "b.yml", .ofString "."] defaultPatterns [] p →
        Candidate oneFile (.ofString "a") [.ofString "b.yml", .ofString "."] defaultPatterns [] q →
        p.route [] = q.route [] → p.components = q.components := by
  have h : find oneFile (.ofString "a") [.ofString "b.yml", .ofString "."] defaultPatterns [] =
      .ok ⟨[.ofString "a/b.yml"], [.ofString "a/./b.yml"]⟩ := by cbv
  exact ⟨_, h, by decide, (shown_once_iff h []).1.1 (by decide)⟩

/-- From the working directory the file is listed twice. -/
theorem not_shown_once :
    ∃ discovery,
      find oneFile (.ofString ".") [.ofString "a/b.yml", .ofString "a"] defaultPatterns [] =
        .ok discovery ∧
      discovery.targets = [⟨.ofString "./a/b.yml", true⟩, ⟨.ofString "a/b.yml", false⟩] ∧
      ¬ ShownOnce discovery.targets [] := by
  refine ⟨⟨[.ofString "./a/b.yml"], [.ofString "a/b.yml"]⟩, ?_, rfl, ?_⟩
  · cbv
  · decide

end Discovery

end Reindent
