import Mathlib
import Reindent.Path.Basic
import Reindent.Proofs.Text.Fields

/-!
# Reindent.Proofs.Path.Components

The components that spellings stand for.

* `Component.Proper`  — a component that a path can have.
* `components_eq`     — the components of a path, from its segments.
* `Path.stem`         — a path without a slash at its end, to which a join adds a tail.
* `components_join`   — a name that is joined is the last component.
-/

namespace Reindent

namespace Component

/-- A component that a path can have: a name is not empty, has no slash, and is none of the dots
that stand for a place. -/
def Proper : Component → Prop
  | .name n => n ≠ [] ∧ n ≠ ['.'] ∧ n ≠ ['.', '.'] ∧ '/' ∉ n
  | _ => True

instance (c : Component) : Decidable c.Proper :=
  match c with
  | .name n => inferInstanceAs (Decidable (n ≠ [] ∧ n ≠ ['.'] ∧ n ≠ ['.', '.'] ∧ '/' ∉ n))
  | .root | .here | .up => isTrue trivial

theorem proper_of_ofSegment? {segment : Text} {c : Component} (h : ofSegment? segment = some c)
    (hslash : '/' ∉ segment) : c.Proper ∧ c ≠ .here ∧ c ≠ .root := by
  unfold ofSegment? at h
  split at h
  · cases h
  · cases h
  · cases h
    exact ⟨trivial, nofun, nofun⟩
  · rename_i hempty hdot hdots
    cases h
    exact ⟨⟨hempty, hdot, hdots, hslash⟩, nofun, nofun⟩

theorem text_of_ofSegment? {segment : Text} {c : Component} (h : ofSegment? segment = some c) :
    c.text = segment := by
  unfold ofSegment? at h
  split at h <;> cases h <;> rfl

theorem ofSegment?_cases (segment : Text) :
    ofSegment? segment = none ∨ ofSegment? segment = some .up ∨
      ∃ n, ofSegment? segment = some (.name n) := by
  unfold ofSegment?
  split <;> simp

theorem ofSegment?_of_proper {segment : Text} (h : (name segment).Proper) :
    ofSegment? segment = some (name segment) := by
  obtain ⟨hempty, hdot, hdots, -⟩ := h
  unfold ofSegment?
  split <;> simp_all

end Component

namespace Path

variable {path base p q : Path} {c : Component} {first name : Text} {rest : List Text}

/-! ### Components -/

theorem not_mem_segment {segment : Text} (h : segment ∈ path.segments) : '/' ∉ segment :=
  Text.not_mem_of_mem_fields h

theorem exists_segments (path : Path) : ∃ first rest, path.segments = first :: rest :=
  List.exists_cons_of_ne_nil (List.splitOn_ne_nil _ _)

theorem start?_append_body (path : Path) : path.start?.toList ++ path.body = path.segments := by
  obtain ⟨first, rest, hsegments⟩ := path.exists_segments
  unfold body
  cases hstart : path.start? with
  | none => rfl
  | some start =>
    rw [start?, hsegments] at hstart
    split at hstart
    · obtain rfl := Option.some.inj hstart
      rw [hsegments]
      rfl
    · cases hstart

theorem start?_cases (h : path.isAbsolute = false) :
    path.start? = none ∨ path.start? = some ['.'] := by
  unfold start?
  rw [h, Bool.false_or]
  split
  · exact .inr (beq_iff_eq.1 ‹_›)
  · exact .inl rfl

/-- The components that the first segment of a path stands for. -/
def firstComponents (absolute : Bool) (first : Text) : List Component :=
  if absolute then [.root]
  else if first = ['.'] then [.here]
  else (Component.ofSegment? first).toList

theorem head_segments_of_isAbsolute (h : path.isAbsolute)
    (hsegments : path.segments = first :: rest) : first = [] := by
  obtain ⟨_ | ⟨c, spelling⟩⟩ := path
  · cases h
  · have hc : c = '/' := by simpa [isAbsolute] using h
    rw [segments, Text.fields, List.splitOn_cons_eq_if_modifyHead, if_pos (beq_iff_eq.2 hc)]
      at hsegments
    exact (List.cons.inj hsegments).1.symm

theorem components_eq (hsegments : path.segments = first :: rest) :
    path.components =
      firstComponents path.isAbsolute first ++ rest.filterMap Component.ofSegment? := by
  cases habsolute : path.isAbsolute with
  | true =>
    have hfirst := head_segments_of_isAbsolute habsolute hsegments
    simp [components, startComponent?, body, start?, habsolute, hsegments, hfirst, firstComponents]
  | false =>
    by_cases hdot : first = ['.']
    · simp [components, startComponent?, body, start?, habsolute, hsegments, hdot, firstComponents]
    · cases hfirst : Component.ofSegment? first <;>
        simp [components, startComponent?, body, start?, habsolute, hsegments, hdot,
          firstComponents, hfirst]

/-- A component comes from the start of the path or from a segment. -/
theorem mem_components (h : c ∈ path.components) :
    (c = .root ∧ path.isAbsolute) ∨ (c = .here ∧ path.isAbsolute = false) ∨
      ∃ segment ∈ path.segments, Component.ofSegment? segment = some c := by
  obtain ⟨first, rest, hsegments⟩ := path.exists_segments
  rw [components_eq hsegments, hsegments] at *
  rcases List.mem_append.1 h with h | h
  · unfold firstComponents at h
    split at h
    · exact .inl ⟨List.mem_singleton.1 h, ‹_›⟩
    · split at h
      · exact .inr (.inl ⟨List.mem_singleton.1 h, by simpa using ‹¬ path.isAbsolute›⟩)
      · exact .inr (.inr ⟨first, List.mem_cons_self, Option.mem_toList.1 h⟩)
  · obtain ⟨segment, hsegment, hc⟩ := List.mem_filterMap.1 h
    exact .inr (.inr ⟨segment, List.mem_cons_of_mem _ hsegment, hc⟩)

theorem proper_of_mem_components (h : c ∈ path.components) : c.Proper := by
  rcases mem_components h with ⟨rfl, -⟩ | ⟨rfl, -⟩ | ⟨segment, hsegment, hc⟩
  · trivial
  · trivial
  · exact (Component.proper_of_ofSegment? hc (not_mem_segment hsegment)).1

theorem isAbsolute_iff : path.isAbsolute ↔ .root ∈ path.components := by
  constructor
  · intro h
    obtain ⟨first, rest, hsegments⟩ := path.exists_segments
    simp [components_eq hsegments, firstComponents, h]
  · intro h
    rcases mem_components h with ⟨-, h⟩ | ⟨h, -⟩ | ⟨segment, hsegment, hc⟩
    · exact h
    · cases h
    · exact absurd rfl (Component.proper_of_ofSegment? hc (not_mem_segment hsegment)).2.2

theorem isAbsolute_congr (h : p.components = q.components) : p.isAbsolute = q.isAbsolute := by
  rw [Bool.eq_iff_iff, isAbsolute_iff, isAbsolute_iff, h]

theorem here_not_mem_components (h : path.isAbsolute) : .here ∉ path.components := by
  intro hhere
  rcases mem_components hhere with ⟨h, -⟩ | ⟨-, h'⟩ | ⟨segment, hsegment, hc⟩
  · cases h
  · rw [h] at h'
    cases h'
  · exact (Component.proper_of_ofSegment? hc (not_mem_segment hsegment)).2.1 rfl

/-- A relative path has its components, the first of which can be a dot. -/
theorem components_filter_here (h : path.isAbsolute = false) :
    path.components = path.components.filter (· != .here) ∨
      path.components = .here :: path.components.filter (· != .here) := by
  obtain ⟨first, rest, hsegments⟩ := path.exists_segments
  have hsegment : ∀ segment ∈ path.segments, ∀ c, Component.ofSegment? segment = some c →
      (c != .here) = true := fun segment hsegment c hc => by
    simpa using (Component.proper_of_ofSegment? hc (not_mem_segment hsegment)).2.1
  have hrest : (rest.filterMap Component.ofSegment?).filter (· != .here) =
      rest.filterMap Component.ofSegment? := by
    refine List.filter_eq_self.2 fun c hc => ?_
    obtain ⟨segment, hmem, hc⟩ := List.mem_filterMap.1 hc
    exact hsegment segment (hsegments ▸ List.mem_cons_of_mem _ hmem) c hc
  rw [components_eq hsegments, h, List.filter_append, hrest]
  by_cases hdot : first = ['.']
  · right
    simp [firstComponents, hdot]
  · left
    cases hfirst : Component.ofSegment? first with
    | none => simp [firstComponents, hdot, hfirst]
    | some c =>
      have hc := hsegment first (hsegments ▸ List.mem_cons_self) c hfirst
      simp [firstComponents, hdot, hfirst, hc]

/-! ### Joining -/

/-- The spelling without a slash at its end. -/
def stem (path : Path) : Text :=
  if path.spelling.getLast? = some '/' then path.spelling.dropLast else path.spelling

theorem stem_cases (path : Path) :
    path.spelling = path.stem ∨ path.spelling = path.stem ++ ['/'] := by
  unfold stem
  split
  · rename_i h
    obtain ⟨init, hinit⟩ := List.getLast?_eq_some_iff.1 h
    exact .inr (by rw [hinit, List.dropLast_concat])
  · exact .inl rfl

theorem join_of_empty {tail : Path} (h : base.spelling = []) : base.join tail = tail := by
  rw [join, h, List.isEmpty_nil, Bool.or_true, if_pos rfl]

/-- A tail stands behind the base and one slash. -/
theorem join_eq {tail : Path} (hbase : base.spelling ≠ []) (htail : tail.isAbsolute = false) :
    base.join tail = ⟨base.stem ++ '/' :: tail.spelling⟩ := by
  have hempty : base.spelling.isEmpty = false := by simpa using hbase
  rw [join, htail, hempty, Bool.or_self, if_neg Bool.false_ne_true]
  by_cases hlast : base.spelling.getLast? = some '/'
  · obtain ⟨init, hinit⟩ := List.getLast?_eq_some_iff.1 hlast
    simp [stem, hinit]
  · simp [stem, hlast]

theorem segments_cases (path : Path) :
    path.segments = Text.fields '/' path.stem ∨
      path.segments = Text.fields '/' path.stem ++ [[]] := by
  rcases path.stem_cases with h | h
  · exact .inl (congrArg (Text.fields '/') h)
  · refine .inr ?_
    rw [segments, h, Text.fields, List.splitOn_append_cons_self, List.splitOn_nil]

theorem isAbsolute_mk_of_not_mem (h : '/' ∉ name) : isAbsolute ⟨name⟩ = false := by
  cases name with
  | nil => rfl
  | cons c name =>
    have hc : c ≠ '/' := fun e => h (e ▸ List.mem_cons_self)
    simp [isAbsolute, hc]

theorem isAbsolute_join {tail : Path} (hbase : base.spelling ≠ [])
    (htail : tail.isAbsolute = false) : (base.join tail).isAbsolute = base.isAbsolute := by
  obtain ⟨c, spelling, hspelling⟩ := List.exists_cons_of_ne_nil hbase
  rw [join_eq hbase htail, isAbsolute, isAbsolute, hspelling]
  rcases base.stem_cases with h | h
  · rw [hspelling] at h
    rw [← h]
    rfl
  · rw [hspelling] at h
    cases hstem : base.stem with
    | nil =>
      rw [hstem] at h
      rw [(List.cons.inj h).1]
      rfl
    | cons d stem =>
      rw [hstem] at h
      rw [(List.cons.inj h).1]
      rfl

section Width

variable {base' tail : Path} (htail : tail.isAbsolute = false)

theorem width_stem (path : Path) :
    path.stem.width ≤ path.spelling.width ∧ path.spelling.width ≤ path.stem.width + 1 := by
  have hslash : Text.width ['/'] = 1 := rfl
  rcases path.stem_cases with h | h
  · have hwidth := congrArg Text.width h
    omega
  · have hwidth := congrArg Text.width h
    rw [Text.width_append, hslash] at hwidth
    omega

include htail

theorem width_join (hbase : base.spelling ≠ []) :
    (base.join tail).spelling.width = base.stem.width + 1 + tail.spelling.width := by
  have hslash : Char.utf8Size '/' = 1 := rfl
  rw [join_eq hbase htail, Text.width_append, Text.width_cons, hslash, Nat.add_assoc]

theorem width_le_width_join : base.spelling.width ≤ (base.join tail).spelling.width := by
  by_cases hbase : base.spelling = []
  · rw [hbase]
    exact Nat.zero_le _
  · have hstem := base.width_stem
    rw [width_join htail hbase]
    omega

/-- A tail behind a front of a path is not longer than behind the path. -/
theorem width_join_le_of_isPrefix (h : base.spelling <+: base'.spelling) :
    (base.join tail).spelling.width ≤ (base'.join tail).spelling.width := by
  obtain ⟨rest, hrest⟩ := h
  cases rest with
  | nil =>
    obtain rfl : base = base' := congrArg mk (base.spelling.append_nil.symm.trans hrest)
    exact Nat.le_refl _
  | cons c rest =>
    have hbase' : base'.spelling ≠ [] := hrest ▸ List.append_ne_nil_of_right_ne_nil _ nofun
    rw [width_join htail hbase']
    by_cases hbase : base.spelling = []
    · rw [join_of_empty hbase]
      exact Nat.le_add_left _ _
    · have hstem := base.width_stem
      have hstem' := base'.width_stem
      have hc := c.utf8Size_pos
      rw [← hrest, Text.width_append, Text.width_cons] at hstem'
      rw [width_join htail hbase]
      omega

end Width

section Name

variable (hbase : base.spelling ≠ []) (hname : '/' ∉ name)
include hbase hname

theorem segments_join : (base.join ⟨name⟩).segments = Text.fields '/' base.stem ++ [name] := by
  rw [join_eq hbase (isAbsolute_mk_of_not_mem hname), segments, Text.fields,
    List.splitOn_append_cons_self, List.splitOn_eq_singleton hname]

/-- A name that is joined is the last component. -/
theorem components_join :
    (base.join ⟨name⟩).components = base.components ++ (Component.ofSegment? name).toList := by
  obtain ⟨first, rest, hstem⟩ : ∃ first rest, Text.fields '/' base.stem = first :: rest :=
    List.exists_cons_of_ne_nil (List.splitOn_ne_nil _ _)
  have hjoin : (base.join ⟨name⟩).segments = first :: (rest ++ [name]) := by
    rw [segments_join hbase hname, hstem, List.cons_append]
  rw [components_eq hjoin, isAbsolute_join hbase (isAbsolute_mk_of_not_mem hname),
    List.filterMap_append, ← List.append_assoc]
  have hlast : [name].filterMap Component.ofSegment? = (Component.ofSegment? name).toList := by
    cases hsegment : Component.ofSegment? name <;> simp [hsegment]
  have hbase' : base.components =
      firstComponents base.isAbsolute first ++ rest.filterMap Component.ofSegment? := by
    rcases base.segments_cases with h | h
    · exact components_eq (h.trans hstem)
    · rw [hstem, List.cons_append] at h
      rw [components_eq h, List.filterMap_append]
      simp [Component.ofSegment?]
  rw [hlast, hbase']

end Name

section Joined

variable (hname : (Component.name name).Proper)
include hname

theorem isAbsolute_join_name (h : base.isAbsolute = false) :
    (base.join ⟨name⟩).isAbsolute = false := by
  have htail := isAbsolute_mk_of_not_mem hname.2.2.2
  by_cases hbase : base.spelling = []
  · rw [join_of_empty hbase, htail]
  · rw [isAbsolute_join hbase htail, h]

theorem components_join_name :
    (base.join ⟨name⟩).components = base.components ++ [.name name] := by
  have hsegment := Component.ofSegment?_of_proper hname
  by_cases hbase : base.spelling = []
  · have hsegments : segments ⟨name⟩ = [name] := List.splitOn_eq_singleton hname.2.2.2
    obtain ⟨spelling⟩ := base
    cases hbase
    rw [join_of_empty rfl, components_eq hsegments, isAbsolute_mk_of_not_mem hname.2.2.2,
      firstComponents, if_neg Bool.false_ne_true, if_neg hname.2.1, hsegment]
    rfl
  · rw [components_join hbase hname.2.2.2, hsegment]
    rfl

end Joined

end Path

end Reindent
