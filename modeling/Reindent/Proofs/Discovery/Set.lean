import Mathlib.Data.List.Sort
import Reindent.Discovery
import Reindent.Proofs.Path.Order

/-!
# Reindent.Proofs.Discovery.Set

Sets of paths.

* `IsFirst`            — a path in the spelling that comes first.
* `pairwise_pathSet`   — a set has its paths in order, each once.
* `mem_pathSet`        — it has each of them in the spelling that came first.
* `map_components_eq`  — lists in order with the same paths are equal, up to spelling.
-/

namespace Reindent

namespace Discovery

open Reindent.Path (Before)

variable {paths paths' : List Path} {path p q : Path}

/-- The path is among `paths`, and no other spelling of it stands in front of it. -/
def IsFirst (paths : List Path) (path : Path) : Prop :=
  paths.find? path.same = some path

namespace IsFirst

theorem mem (h : IsFirst paths p) : p ∈ paths :=
  List.mem_of_find?_eq_some h

theorem exists_of_mem (h : p ∈ paths) :
    ∃ first, IsFirst paths first ∧ first.components = p.components := by
  have hsome : (paths.find? p.same).isSome :=
    List.find?_isSome.2 ⟨p, h, Path.same_iff.2 rfl⟩
  obtain ⟨first, hfirst⟩ := Option.isSome_iff_exists.1 hsome
  have hcomponents := (Path.same_iff.1 (List.find?_some hfirst)).symm
  exact ⟨first, by rw [IsFirst, Path.same_congr hcomponents, hfirst], hcomponents⟩

theorem cons_iff :
    IsFirst (path :: paths) p ↔ p = path ∨ IsFirst paths p ∧ path.same p = false := by
  cases hsame : p.same path with
  | true => simp [IsFirst, List.find?_cons_of_pos hsame, Path.same_comm path p, hsame, eq_comm]
  | false =>
    have hne : p ≠ path := by
      rintro rfl
      rw [Path.same_iff.2 rfl] at hsame
      cases hsame
    simp [IsFirst, Path.same_comm path p, hsame, hne]

end IsFirst

/-! ### Neighbouring spellings -/

theorem mem_of_mem_dropRepeats (h : p ∈ dropRepeats paths) : p ∈ paths := by
  induction paths with
  | nil => exact h
  | cons path rest ih =>
    cases hrest : dropRepeats rest with
    | nil =>
      rw [dropRepeats, hrest] at h
      exact List.mem_cons.2 (.inl (List.mem_singleton.1 h))
    | cons next others =>
      rw [hrest] at ih
      rw [dropRepeats, hrest] at h
      dsimp only at h
      split at h
      · rcases List.mem_cons.1 h with rfl | h
        · exact List.mem_cons_self
        · exact List.mem_cons_of_mem _ (ih (List.mem_cons_of_mem _ h))
      · rcases List.mem_cons.1 h with rfl | h
        · exact List.mem_cons_self
        · exact List.mem_cons_of_mem _ (ih h)

/-- In front of paths in order, a path takes its other spellings away. -/
theorem dropRepeats_cons (hle : ∀ p ∈ paths, (Path.order path p).isLE)
    (hpaths : (dropRepeats paths).Pairwise Before) :
    dropRepeats (path :: paths) = path :: (dropRepeats paths).filter (!path.same ·) := by
  have hmem := @mem_of_mem_dropRepeats paths
  rw [dropRepeats]
  cases hrest : dropRepeats paths with
  | nil => rfl
  | cons next others =>
    rw [hrest, List.pairwise_cons] at hpaths
    rw [hrest] at hmem
    have hothers : ∀ p ∈ others, path.same p = false := by
      intro p hp
      rcases Path.before_or_same_of_isLE (hle next (hmem List.mem_cons_self)) with hlt | heq
      · exact (hlt.trans (hpaths.1 p hp)).not_same
      · exact ((Path.before_congr heq.symm rfl).1 (hpaths.1 p hp)).not_same
    have hfilter : others.filter (!path.same ·) = others :=
      List.filter_eq_self.2 fun p hp => by rw [hothers p hp, Bool.not_false]
    cases hnext : path.same next <;> simp [hnext, hfilter]

theorem pairwise_dropRepeats (h : paths.Pairwise fun p q => (Path.order p q).isLE) :
    (dropRepeats paths).Pairwise Before := by
  induction h with
  | nil => exact .nil
  | @cons path paths hle _ ih =>
    rw [dropRepeats_cons hle ih, List.pairwise_cons]
    refine ⟨fun p hp => ?_, ih.filter _⟩
    rw [List.mem_filter] at hp
    have hne : path.same p = false := by simpa using hp.2
    rcases Path.before_or_same_of_isLE (hle p (mem_of_mem_dropRepeats hp.1)) with hlt | heq
    · exact hlt
    · rw [Path.same_iff.2 heq] at hne
      cases hne

theorem mem_dropRepeats (h : paths.Pairwise fun p q => (Path.order p q).isLE) :
    p ∈ dropRepeats paths ↔ IsFirst paths p := by
  induction h with
  | nil => simp [dropRepeats, IsFirst]
  | @cons path paths hle hpaths ih =>
    rw [dropRepeats_cons hle (pairwise_dropRepeats hpaths), List.mem_cons, List.mem_filter, ih,
      IsFirst.cons_iff, Bool.not_eq_true']

/-! ### Sorting -/

theorem isLE_trans (p q r : Path) (h : (Path.order p q).isLE) (h' : (Path.order q r).isLE) :
    (Path.order p r).isLE :=
  Std.TransCmp.isLE_trans h h'

theorem isLE_total (p q : Path) : (Path.order p q).isLE || (Path.order q p).isLE := by
  rw [@Std.OrientedCmp.eq_swap _ Path.order _ p q]
  cases Path.order q p <;> rfl

/-- Sorting keeps the spellings of a path in the order in which they came. -/
theorem filter_same_mergeSort (paths : List Path) (p : Path) :
    (paths.mergeSort fun p q => (Path.order p q).isLE).filter p.same = paths.filter p.same := by
  have hequal : (paths.filter p.same).Pairwise fun q r => (Path.order q r).isLE := by
    refine List.Pairwise.imp_of_mem (fun {q r} hq hr _ => ?_)
      (List.pairwise_of_forall fun _ _ => trivial)
    have hq := Path.same_iff.1 (List.mem_filter.1 hq).2
    have hr := Path.same_iff.1 (List.mem_filter.1 hr).2
    rw [Path.order_eq_iff.2 (hq.symm.trans hr)]
    rfl
  have hsublist : (paths.filter p.same).Sublist
      ((paths.mergeSort fun p q => (Path.order p q).isLE).filter p.same) := by
    simpa using
      (List.sublist_mergeSort isLE_trans isLE_total hequal List.filter_sublist).filter p.same
  have hlength := ((paths.mergeSort_perm fun p q => (Path.order p q).isLE).filter p.same).length_eq
  exact (hsublist.eq_of_length hlength.symm).symm

/-! ### Sets -/

theorem pairwise_pathSet (paths : List Path) : (pathSet paths).Pairwise Before :=
  pairwise_dropRepeats (List.pairwise_mergeSort isLE_trans isLE_total paths)

theorem mem_pathSet : p ∈ pathSet paths ↔ IsFirst paths p := by
  rw [pathSet, mem_dropRepeats (List.pairwise_mergeSort isLE_trans isLE_total paths), IsFirst,
    ← List.head?_filter, filter_same_mergeSort, List.head?_filter, IsFirst]

theorem nodup_components (h : paths.Pairwise Before) : (paths.map Path.components).Nodup :=
  List.pairwise_map.2 (h.imp Before.components_ne)

/-- Two lists in order with the same paths are equal up to spelling. -/
theorem map_components_eq (h : paths.Pairwise Before) (h' : paths'.Pairwise Before)
    (hmem : ∀ cs, cs ∈ paths.map Path.components ↔ cs ∈ paths'.map Path.components) :
    paths.map Path.components = paths'.map Path.components := by
  have hperm : (paths.map Path.components).Perm (paths'.map Path.components) :=
    (List.perm_ext_iff_of_nodup (nodup_components h) (nodup_components h')).2 hmem
  have hsorted : ∀ {paths : List Path}, paths.Pairwise Before →
      (paths.map Path.components).Pairwise fun as bs => Path.orderComponents as bs = .lt :=
    fun h => List.pairwise_map.2 h
  refine hperm.eq_of_pairwise (fun as bs _ _ hab hba => ?_) (hsorted h) (hsorted h')
  have hlt : Path.orderComponents as as = .lt :=
    @Std.TransCmp.lt_trans _ Path.orderComponents _ _ _ _ hab hba
  rw [@Std.ReflCmp.compare_self _ Path.orderComponents _ as] at hlt
  cases hlt

end Discovery

end Reindent
