import Reindent.Proofs.Path.Components

/-!
# Reindent.Proofs.Path.Ancestors

What holds a relative path by its spelling.

* `components_assemble`       — a start and segments that are put together are read as such again.
* `map_components_ancestors`  — the components of the ancestors are the fronts of those of the path,
  longest first.
* `isPrefix_of_mem_ancestors` — the spellings of the ancestors are fronts of that of the path.
* `longestFront_of_find?_ancestors` — the first ancestor with a property of its components.
-/

namespace Reindent

/-! ### Fronts -/

section Fronts

variable {α : Type}

theorem fronts_concat (xs : List α) (x : α) :
    (xs ++ [x]).inits.reverse = (xs ++ [x]) :: xs.inits.reverse := by
  simp [List.inits_append]

theorem pairwise_fronts (xs : List α) :
    xs.inits.reverse.Pairwise fun longer shorter => shorter <+: longer := by
  induction xs using List.reverseRecOn with
  | nil => exact List.pairwise_singleton _ _
  | append_singleton xs x ih =>
    rw [fronts_concat, List.pairwise_cons]
    refine ⟨fun front hfront => ?_, ih⟩
    rw [List.mem_reverse, List.mem_inits] at hfront
    exact hfront.trans (List.prefix_append _ _)

/-- The longest of the fronts of a list that have a property. -/
structure LongestFront (P : List α → Prop) (xs front : List α) : Prop where
  isPrefix : front <+: xs
  holds : P front
  longest : ∀ other, other <+: xs → P other → other <+: front

theorem LongestFront.eq {P : List α → Prop} {xs front other : List α} (h : LongestFront P xs front)
    (h' : LongestFront P xs other) : front = other :=
  have hle := h'.longest front h.isPrefix h.holds
  have hge := h.longest other h'.isPrefix h'.holds
  hle.eq_of_length (Nat.le_antisymm hle.length_le hge.length_le)

end Fronts

theorem Text.isPrefix_intercalate_concat (separator : Char) (parts : List Text) (last : Text) :
    [separator].intercalate parts <+: [separator].intercalate (parts ++ [last]) := by
  cases parts with
  | nil => exact List.nil_prefix
  | cons part rest =>
    rw [intercalate_concat (List.cons_ne_nil _ _)]
    exact List.prefix_append _ _

namespace Path

variable {start : Option Text} {body : List Text} {path : Path}

/-- The start of a relative path and the segments after it: without a dot at the start, the first
segment is no dot and not empty. -/
structure IsRelative (start : Option Text) (body : List Text) : Prop where
  slash : ∀ segment ∈ body, '/' ∉ segment
  start : start = some ['.'] ∨ start = none ∧ body.head? ≠ some [] ∧ body.head? ≠ some ['.']

theorem IsRelative.of_concat {segment : Text} (h : IsRelative start (body ++ [segment])) :
    IsRelative start body := by
  refine ⟨fun other hother => h.slash other (List.mem_append_left _ hother), ?_⟩
  cases body with
  | nil => exact h.start.imp_right fun hnone => ⟨hnone.1, nofun, nofun⟩
  | cons first rest => exact h.start

theorem isRelative_start_body (h : path.isAbsolute = false) (hne : path.spelling ≠ []) :
    IsRelative path.start? path.body := by
  obtain ⟨first, rest, hsegments⟩ := path.exists_segments
  have hslash : ∀ segment ∈ first :: rest, '/' ∉ segment :=
    fun segment hsegment => not_mem_segment (hsegments ▸ hsegment)
  have hfirst : first ≠ [] := by
    rintro rfl
    have hjoin : ['/'].intercalate path.segments = path.spelling := List.intercalate_splitOn '/'
    rw [hsegments] at hjoin
    cases rest with
    | nil => exact hne hjoin.symm
    | cons next rest => simp [isAbsolute, ← hjoin, List.intercalate_cons_cons] at h
  by_cases hdot : first = ['.']
  · have hstart : path.start? = some ['.'] := by simp [start?, h, hsegments, hdot]
    rw [body, hstart, Option.isSome_some, if_pos rfl, hsegments]
    exact ⟨fun segment hsegment => hslash segment (List.mem_cons_of_mem _ hsegment), .inl rfl⟩
  · have hstart : path.start? = none := by simp [start?, h, hsegments, hdot]
    rw [body, hstart, Option.isSome_none, if_neg Bool.false_ne_true, hsegments]
    exact ⟨hslash, .inr ⟨rfl, by simpa using hfirst, by simpa using hdot⟩⟩

theorem assemble_spelling (h : IsRelative start body) :
    (assemble start body).spelling = ['/'].intercalate (start.toList ++ body) := by
  obtain rfl | ⟨rfl, -⟩ := h.start
  · cases body <;> rfl
  · rfl

theorem assemble_start_body (h : path.isAbsolute = false) (hne : path.spelling ≠ []) :
    assemble path.start? path.body = path := by
  have hspelling := assemble_spelling (isRelative_start_body h hne)
  rw [start?_append_body, segments, Text.fields, List.intercalate_splitOn] at hspelling
  exact congrArg mk hspelling

/-- What is put together is read as the start and the segments again. -/
theorem components_assemble (h : IsRelative start body) :
    (assemble start body).components =
      (start.map fun _ => Component.here).toList ++ body.filterMap Component.ofSegment? := by
  have hspelling := assemble_spelling h
  obtain rfl | ⟨rfl, hempty, hdot⟩ := h.start
  · have hsegments : (assemble (some ['.']) body).segments = ['.'] :: body := by
      rw [segments, hspelling]
      refine List.splitOn_intercalate '/' (List.forall_mem_cons.2 ⟨?_, h.slash⟩)
        (List.cons_ne_nil _ _)
      decide
    have habsolute : (assemble (some ['.']) body).isAbsolute = false := by
      rw [isAbsolute, hspelling]
      cases body <;> rfl
    rw [components_eq hsegments, habsolute]
    rfl
  · cases body with
    | nil => rfl
    | cons first rest =>
      have hsegments : (assemble none (first :: rest)).segments = first :: rest := by
        rw [segments, hspelling]
        exact List.splitOn_intercalate '/' h.slash (List.cons_ne_nil _ _)
      obtain ⟨c, text, rfl⟩ := List.exists_cons_of_ne_nil (l := first) (by simpa using hempty)
      have hc : c ≠ '/' := fun heq => h.slash _ List.mem_cons_self (heq ▸ List.mem_cons_self)
      have habsolute : (assemble none ((c :: text) :: rest)).isAbsolute = false := by
        rw [isAbsolute, hspelling]
        cases rest <;> simpa [List.intercalate_cons_cons] using hc
      have hfirst : (c :: text) ≠ ['.'] := by simpa using hdot
      rw [components_eq hsegments, habsolute, firstComponents, if_neg Bool.false_ne_true,
        if_neg hfirst]
      cases hsegment : Component.ofSegment? (c :: text) <;> simp [hsegment]

theorem components_assemble_concat {segment : Text} (h : IsRelative start (body ++ [segment])) :
    (assemble start (body ++ [segment])).components =
      (assemble start body).components ++ (Component.ofSegment? segment).toList := by
  rw [components_assemble h, components_assemble h.of_concat, List.filterMap_append,
    List.append_assoc]
  cases hsegment : Component.ofSegment? segment <;> simp [hsegment]

/-! ### The walk outwards -/

theorem startAncestors_map_components (h : IsRelative start []) :
    (startAncestors start).map components = (assemble start []).components.inits.reverse := by
  obtain rfl | ⟨rfl, -⟩ := h.start <;> decide

theorem ancestorsFrom_map_components {segments : List Text} (h : IsRelative start segments.reverse) :
    (ancestorsFrom start segments).map components =
      (assemble start segments.reverse).components.inits.reverse := by
  induction segments with
  | nil => exact startAncestors_map_components h
  | cons segment segments ih =>
    rw [List.reverse_cons] at h ⊢
    rw [ancestorsFrom, components_assemble_concat h]
    cases hsegment : Component.ofSegment? segment with
    | none =>
      have hidle : isIdle segment = true := by rw [isIdle, hsegment]; rfl
      rw [if_pos hidle, Option.toList_none, List.append_nil, ih h.of_concat]
    | some c =>
      have hidle : ¬ isIdle segment = true := by rw [isIdle, hsegment]; exact Bool.false_ne_true
      rw [if_neg hidle, List.map_cons, List.reverse_cons, components_assemble_concat h, hsegment,
        Option.toList_some, ih h.of_concat, fronts_concat]

/-- The components of the ancestors are the fronts of those of the path, longest first. -/
theorem map_components_ancestors (h : path.isAbsolute = false) :
    path.ancestors.map components = path.components.inits.reverse := by
  by_cases hempty : path.spelling = []
  · obtain ⟨spelling⟩ := path
    cases hempty
    decide
  · have hrelative := isRelative_start_body h hempty
    rw [← path.body.reverse_reverse] at hrelative
    have hwalk := ancestorsFrom_map_components hrelative
    rw [List.reverse_reverse, assemble_start_body h hempty] at hwalk
    rw [ancestors, List.map_cons, List.map_tail, hwalk]
    obtain hnil | ⟨front, last, hlast⟩ := path.components.eq_nil_or_concat
    · rw [hnil]
      rfl
    · rw [hlast, List.concat_eq_append, fronts_concat, List.tail_cons]

theorem isPrefix_of_mem_ancestorsFrom {segments : List Text} {ancestor : Path}
    (h : IsRelative start segments.reverse) (hmem : ancestor ∈ ancestorsFrom start segments) :
    ancestor.spelling <+: (assemble start segments.reverse).spelling := by
  induction segments with
  | nil =>
    obtain rfl | ⟨rfl, -⟩ := h.start <;> revert ancestor <;> decide
  | cons segment segments ih =>
    rw [List.reverse_cons] at h ⊢
    have hfront : (assemble start segments.reverse).spelling <+:
        (assemble start (segments.reverse ++ [segment])).spelling := by
      rw [assemble_spelling h, assemble_spelling h.of_concat, ← List.append_assoc]
      exact Text.isPrefix_intercalate_concat ..
    rw [ancestorsFrom] at hmem
    split at hmem
    · exact (ih h.of_concat hmem).trans hfront
    · rcases List.mem_cons.1 hmem with rfl | hmem
      · rw [List.reverse_cons]
      · exact (ih h.of_concat hmem).trans hfront

theorem isPrefix_of_mem_ancestors {ancestor : Path} (h : path.isAbsolute = false)
    (hmem : ancestor ∈ path.ancestors) : ancestor.spelling <+: path.spelling := by
  rcases List.mem_cons.1 hmem with rfl | hmem
  · exact List.prefix_rfl
  · by_cases hempty : path.spelling = []
    · obtain ⟨spelling⟩ := path
      cases hempty
      cases hmem
    · have hrelative := isRelative_start_body h hempty
      have hspelling : (assemble path.start? path.body).spelling = path.spelling := by
        rw [assemble_spelling hrelative, start?_append_body]
        exact List.intercalate_splitOn '/'
      rw [← hspelling, ← path.body.reverse_reverse]
      refine isPrefix_of_mem_ancestorsFrom ?_ (List.mem_of_mem_tail hmem)
      rwa [List.reverse_reverse]

theorem isAbsolute_of_mem_ancestors {ancestor : Path} (h : path.isAbsolute = false)
    (hmem : ancestor ∈ path.ancestors) : ancestor.isAbsolute = false := by
  obtain ⟨rest, hrest⟩ := isPrefix_of_mem_ancestors h hmem
  rw [isAbsolute, ← hrest] at h
  rw [isAbsolute]
  cases hspelling : ancestor.spelling with
  | nil => rfl
  | cons c spelling =>
    rw [hspelling] at h
    exact h

/-! ### The first ancestor -/

section Search

variable {p : Path → Bool} {P : List Component → Prop} (h : path.isAbsolute = false)
  (hp : ∀ ancestor ∈ path.ancestors, p ancestor = true ↔ P ancestor.components)
include h hp

theorem exists_ancestor_of_front {front : List Component} (hfront : front <+: path.components)
    (hholds : P front) :
    ∃ ancestor ∈ path.ancestors, ancestor.components = front ∧ p ancestor = true := by
  rw [← List.mem_inits, ← List.mem_reverse, ← map_components_ancestors h, List.mem_map] at hfront
  obtain ⟨ancestor, hancestor, rfl⟩ := hfront
  exact ⟨ancestor, hancestor, rfl, (hp ancestor hancestor).2 hholds⟩

/-- The first ancestor with a property of its components has the longest such components. -/
theorem longestFront_of_find?_ancestors {ancestor : Path}
    (hfind : path.ancestors.find? p = some ancestor) :
    LongestFront P path.components ancestor.components := by
  have hfronts := map_components_ancestors h
  obtain ⟨hancestor, before, behind, hsplit, hbefore⟩ := List.find?_eq_some_iff_append.1 hfind
  have hmem : ancestor ∈ path.ancestors := hsplit ▸ List.mem_append_right _ List.mem_cons_self
  refine ⟨?_, (hp ancestor hmem).1 hancestor, fun front hfront hholds => ?_⟩
  · rw [← List.mem_inits, ← List.mem_reverse, ← hfronts]
    exact List.mem_map_of_mem hmem
  · obtain ⟨other, hother, rfl, hpother⟩ := exists_ancestor_of_front h hp hfront hholds
    rw [hsplit, List.mem_append, List.mem_cons] at hother
    obtain hother | rfl | hother := hother
    · have hnot := hbefore other hother
      rw [hpother] at hnot
      cases hnot
    · exact List.prefix_rfl
    · have hpairwise := pairwise_fronts path.components
      rw [← hfronts, hsplit, List.map_append, List.pairwise_append, List.map_cons,
        List.pairwise_cons] at hpairwise
      exact hpairwise.2.1.1 _ (List.mem_map_of_mem hother)

theorem not_of_find?_ancestors_eq_none (hfind : path.ancestors.find? p = none)
    {front : List Component} (hfront : front <+: path.components) : ¬ P front := by
  intro hholds
  obtain ⟨ancestor, hancestor, -, hpancestor⟩ := exists_ancestor_of_front h hp hfront hholds
  exact List.find?_eq_none.1 hfind ancestor hancestor hpancestor

end Search

end Path
end Reindent
