import Reindent.Proofs.Glob.Literal
import Reindent.Proofs.Tree.Lookup

/-!
# Reindent.Proofs.Glob.Walk

How a walk goes on from a path.

* `Standing`        — a path that the walk can stand at.
* `lead`            — what stands in front of a name that is looked up from a path.
* `expand_literals` — steps without wildcards lead where their names lead in the tree.
* `spelling_foldl_child`, `components_foldl_child` — the path of names below another path.
-/

namespace Reindent
namespace Glob

variable {tree : Tree} {path base start : Path} {name ending : Text} {names steps : List Text}
  {location place : Location}

/-! ### Standing at a path -/

/-- The walk stands at the directory where relative paths start only as a single dot. -/
structure Standing (path : Path) : Prop where
  ne_nil : path.spelling ≠ []
  eq_dot : isHere path → path = ⟨['.']⟩

/-- What stands in front of a name that is looked up from the path. -/
def lead (path : Path) : Text :=
  if isHere path then [] else path.stem ++ ['/']

theorem isHere_mk (hname : '/' ∉ name) : isHere ⟨name⟩ ↔ name = ['.'] := by
  have hsegments : (⟨name⟩ : Path).segments = [name] := List.splitOn_eq_singleton hname
  rw [isHere, beq_iff_eq, Path.components_eq hsegments, Path.isAbsolute_mk_of_not_mem hname]
  by_cases hdot : name = ['.']
  · simp [Path.firstComponents, hdot]
  · have hhere : Component.ofSegment? name ≠ some .here :=
      fun h => (Component.proper_of_ofSegment? h hname).2.1 rfl
    cases hsegment : Component.ofSegment? name with
    | none => simp [Path.firstComponents, hdot, hsegment]
    | some c =>
      have hc : c ≠ .here := fun h => hhere (h ▸ hsegment)
      simp [Path.firstComponents, hdot, hsegment, hc]

section Child

variable (hpath : Standing path) (hname : '/' ∉ name)
include hpath hname

theorem child_spelling : (child path name).spelling = lead path ++ name := by
  unfold child lead
  split
  · rfl
  · rw [Path.join_eq hpath.ne_nil (Path.isAbsolute_mk_of_not_mem hname)]
    simp

theorem isHere_child : isHere (child path name) ↔ isHere path ∧ name = ['.'] := by
  by_cases hhere : isHere path
  · simp [child, hhere, isHere_mk hname]
  · have hjoin : ¬ isHere (path.join ⟨name⟩) := by
      rw [isHere, beq_iff_eq, Path.components_join hpath.ne_nil hname]
      intro hcomponents
      cases hsegment : Component.ofSegment? name with
      | none =>
        rw [hsegment, Option.toList_none, List.append_nil] at hcomponents
        exact hhere (beq_iff_eq.2 hcomponents)
      | some c =>
        rw [hsegment, Option.toList_some, List.append_eq_singleton_iff] at hcomponents
        have hc := (Component.proper_of_ofSegment? hsegment hname).2.1
        simp_all
    simp [child, hhere, hjoin]

theorem Standing.child (hempty : isHere path → name ≠ []) : Standing (child path name) where
  ne_nil := by
    rw [child_spelling hpath hname]
    unfold lead
    split
    · simpa using hempty ‹_›
    · simp
  eq_dot h := by
    obtain ⟨hhere, rfl⟩ := (isHere_child hpath hname).1 h
    rw [Glob.child, if_pos hhere]

theorem width_lead_child : (lead (child path name)).width ≤ (lead path).width + name.width + 1 := by
  unfold lead
  split
  · simp
  · have hslash : Text.width ['/'] = 1 := by decide
    have hstem : (Glob.child path name).stem.width ≤ (Glob.child path name).spelling.width := by
      rcases (Glob.child path name).stem_cases with h | h
      · exact Nat.le_of_eq (congrArg Text.width h.symm)
      · rw [h, Text.width_append]
        exact Nat.le_add_right _ _
    rw [child_spelling hpath hname, Text.width_append] at hstem
    rw [Text.width_append, hslash]
    exact Nat.add_le_add_right hstem 1

theorem width_rest_le (hne : names ≠ [])
    (hwidth : (lead path).width + Text.width (['/'].intercalate (name :: names)) ≤ Tree.maxPath) :
    (lead (child path name)).width + Text.width (['/'].intercalate names) ≤ Tree.maxPath := by
  obtain ⟨next, others, rfl⟩ := List.exists_cons_of_ne_nil hne
  have hslash : ('/' : Char).utf8Size = 1 := by decide
  have hlead := width_lead_child hpath hname
  rw [List.intercalate_cons_cons, List.append_assoc, List.singleton_append, Text.width_append,
    Text.width_cons, hslash] at hwidth
  omega

theorem locate_child (hlocate : tree.locate path = .ok location)
    (hempty : isHere path → name ≠ [])
    (hwidth : (lead path).width + name.width ≤ Tree.maxPath) :
    tree.locate (child path name) = tree.step location name := by
  rw [← Text.width_append, ← child_spelling hpath hname] at hwidth
  by_cases hhere : isHere path
  · have hname' : (⟨name⟩ : Path).segments = [name] := List.splitOn_eq_singleton hname
    have hdot : (⟨['.']⟩ : Path).segments = [['.']] := rfl
    rw [child, if_pos hhere] at hwidth ⊢
    rw [hpath.eq_dot hhere] at hlocate
    obtain ⟨hdotNe, hdotWidth⟩ := Tree.width_le_of_locate hlocate
    rw [Tree.locate_eq hdotNe hdotWidth, hdot, foldlM_singleton] at hlocate
    have hlocation : location = tree.workingDirectory := by
      have hstay := hlocate
      unfold Tree.step at hstay
      split at hstay
      · cases hstay
      · exact (Except.ok.inj hstay).symm
    rw [Tree.locate_eq (hempty hhere) hwidth, hname', foldlM_singleton, Tree.origin,
      Path.isAbsolute_mk_of_not_mem hname, hlocation]
    rfl
  · rw [child, if_neg hhere] at hwidth ⊢
    exact Tree.locate_join hlocate hname hwidth

end Child

/-! ### Steps without wildcards -/

/-- The first piece that is no dot is empty. -/
def GapAfterDots (pieces : List Text) : Prop :=
  (pieces.dropWhile (· == ['.'])).head? = some []

instance (pieces : List Text) : Decidable (GapAfterDots pieces) :=
  inferInstanceAs (Decidable (_ = _))

theorem leads_of_step {location' : Location} (hpath : Standing path) (hname : '/' ∉ name)
    (hlocate : tree.locate path = .ok location) (hstep : tree.step location name = .ok location')
    (hempty : isHere path → name ≠ [])
    (hwidth : (lead path).width + name.width ≤ Tree.maxPath) : leads tree path name := by
  obtain ⟨hdirectory, hnode⟩ := Tree.step_ok hstep
  unfold leads
  split
  · rw [Tree.isDirectory_of_locate hlocate, hdirectory]
  · rename_i hdots
    have hup : name ≠ ['.', '.'] := by
      rintro rfl
      simp at hdots
    have hchild := locate_child hpath hname hlocate hempty hwidth
    rw [Tree.pathExists_of_locate (hchild.trans hstep)]
    exact hnode.resolve_left hup

/-- Steps without wildcards lead where their names lead in the tree. -/
theorem expand_literals {location' : Location} (directories : Bool) (rest : List Step)
    (hpath : Standing path) (hlocate : tree.locate path = .ok location)
    (hsteps : names.foldlM tree.step location = .ok location')
    (hnames : ∀ name ∈ names, '/' ∉ name) (hgap : isHere path → ¬ GapAfterDots names)
    (hwidth : names ≠ [] → (lead path).width + Text.width (['/'].intercalate names) ≤ Tree.maxPath) :
    expand tree directories (names.map .literal ++ rest) path =
        expand tree directories rest (names.foldl child path) ∧
      Standing (names.foldl child path) ∧
      tree.locate (names.foldl child path) = .ok location' := by
  induction names generalizing path location with
  | nil =>
    cases hsteps
    exact ⟨rfl, hpath, hlocate⟩
  | cons name names ih =>
    rw [List.forall_mem_cons] at hnames
    obtain ⟨hname, hnames⟩ := hnames
    obtain ⟨middle, hstep, hrest⟩ := foldlM_cons_eq_ok.1 hsteps
    have hjoin := hwidth nofun
    have hempty : isHere path → name ≠ [] := by
      rintro hhere rfl
      exact hgap hhere rfl
    have hfits : (lead path).width + name.width ≤ Tree.maxPath :=
      Nat.le_trans (Nat.add_le_add_left (Text.width_le_width_intercalate name names) _) hjoin
    have hleads := leads_of_step hpath hname hlocate hstep hempty hfits
    have hchild := (locate_child hpath hname hlocate hempty hfits).trans hstep
    have hgap' : isHere (child path name) → ¬ GapAfterDots names := by
      intro hchildHere
      obtain ⟨hhere, rfl⟩ := (isHere_child hpath hname).1 hchildHere
      exact hgap hhere
    obtain ⟨hexpand, hstanding, hplace⟩ :=
      ih (hpath.child hname hempty) hchild hrest hnames hgap' fun hne =>
        width_rest_le hpath hname hne hjoin
    refine ⟨?_, hstanding, hplace⟩
    rw [List.map_cons, List.cons_append, expand, if_pos hleads, hexpand, List.foldl_cons]

/-! ### Names below a path -/

/-- The components of a path that are those of a longer one too. -/
def front (path : Path) : List Component :=
  if isHere path then [] else path.components

section ProperName

variable (hpath : Standing path) (hname : (Component.name name).Proper)
include hpath hname

theorem components_child : (child path name).components = front path ++ [.name name] := by
  have hsegment := Component.ofSegment?_of_proper hname
  obtain ⟨hempty, hdot, hdots, hslash⟩ := hname
  unfold child front
  split
  · have hsegments : (⟨name⟩ : Path).segments = [name] := List.splitOn_eq_singleton hslash
    rw [Path.components_eq hsegments, Path.isAbsolute_mk_of_not_mem hslash]
    simp [Path.firstComponents, hdot, hsegment]
  · rw [Path.components_join hpath.ne_nil hslash, hsegment, Option.toList_some]

theorem lead_child : lead (child path name) = lead path ++ name ++ ['/'] := by
  obtain ⟨hempty, hdot, hdots, hslash⟩ := hname
  have hthere : ¬ isHere (child path name) := fun h => hdot ((isHere_child hpath hslash).1 h).2
  have hlast : (lead path ++ name).getLast? ≠ some '/' := by
    rw [List.getLast?_append_of_ne_nil _ hempty]
    exact fun h => hslash (List.mem_of_getLast? h)
  rw [lead, if_neg hthere, Path.stem, child_spelling hpath hslash, if_neg hlast]

end ProperName

section Below

variable (hpath : Standing path) (hnames : ∀ name ∈ names, (Component.name name).Proper)
include hpath hnames

theorem components_foldl_child (hne : names ≠ []) :
    (names.foldl child path).components = front path ++ names.map .name := by
  induction names generalizing path with
  | nil => exact absurd rfl hne
  | cons name names ih =>
    rw [List.forall_mem_cons] at hnames
    obtain ⟨hname, hnames⟩ := hnames
    obtain ⟨hempty, hdot, hdots, hslash⟩ := hname
    have hchild := components_child hpath ⟨hempty, hdot, hdots, hslash⟩
    have hthere : ¬ isHere (child path name) := fun h => hdot ((isHere_child hpath hslash).1 h).2
    rw [List.foldl_cons]
    by_cases hnil : names = []
    · rw [hnil, List.foldl_nil, hchild]
      rfl
    · rw [ih (hpath.child hslash fun _ => hempty) hnames hnil, front, if_neg hthere, hchild]
      simp

theorem spelling_foldl_child (hne : names ≠ []) :
    (names.foldl child path).spelling = lead path ++ ['/'].intercalate names := by
  induction names generalizing path with
  | nil => exact absurd rfl hne
  | cons name names ih =>
    rw [List.forall_mem_cons] at hnames
    obtain ⟨hname, hnames⟩ := hnames
    obtain ⟨hempty, hdot, hdots, hslash⟩ := hname
    have hthere : ¬ isHere (child path name) := fun h => hdot ((isHere_child hpath hslash).1 h).2
    rw [List.foldl_cons]
    cases names with
    | nil => rw [List.foldl_nil, List.intercalate_singleton, child_spelling hpath hslash]
    | cons next names =>
      rw [ih (hpath.child hslash fun _ => hempty) hnames (List.cons_ne_nil _ _),
        lead_child hpath ⟨hempty, hdot, hdots, hslash⟩, List.intercalate_cons_cons]
      simp

end Below

end Glob
end Reindent
