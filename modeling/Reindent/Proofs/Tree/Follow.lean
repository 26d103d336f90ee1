import Reindent.Proofs.Tree.Lookup

/-!
# Reindent.Proofs.Tree.Follow

The way through a tree along the components of a path.

* `Tree.follow`               — the place that components lead to.
* `Tree.furthest`             — the last place on their way, wherever it breaks off.
* `exists_follow_of_isPrefix` — no way gets below a place without passing through it.
* `follow_of_locate`          — a relative path leads to the place that its components lead to.
* `pathExists_join_iff`       — what is behind a path is in the place of its components.
-/

namespace Reindent

namespace Tree

variable {tree : Tree} {place place' goal : Location} {segment : Text} {segments : List Text}
  {components front rest : List Component}

/-- The place that the components lead to. -/
def follow (tree : Tree) (place : Location) (components : List Component) :
    Except LookupError Location :=
  components.foldlM (fun place c => tree.step place c.text) place

/-- The last place on the way along the components. -/
def furthest (tree : Tree) (place : Location) : List Component → Location
  | [] => place
  | c :: rest =>
    match tree.step place c.text with
    | .ok next => tree.furthest next rest
    | .error _ => place

@[simp] theorem follow_nil : tree.follow place [] = .ok place := rfl

theorem follow_cons {c : Component} :
    tree.follow place (c :: rest) = .ok goal ↔
      ∃ next, tree.step place c.text = .ok next ∧ tree.follow next rest = .ok goal :=
  foldlM_cons_eq_ok

theorem follow_append :
    tree.follow place (front ++ rest) = .ok goal ↔
      ∃ next, tree.follow place front = .ok next ∧ tree.follow next rest = .ok goal :=
  foldlM_append_eq_ok

theorem furthest_cons {c : Component} (h : tree.step place c.text = .ok place') :
    tree.furthest place (c :: rest) = tree.furthest place' rest := by
  rw [furthest, h]

theorem furthest_of_error {c : Component} {e : LookupError} (h : tree.step place c.text = .error e) :
    tree.furthest place (c :: rest) = place := by
  rw [furthest, h]

theorem furthest_append (h : tree.follow place front = .ok place') :
    tree.furthest place (front ++ rest) = tree.furthest place' rest := by
  induction front generalizing place with
  | nil =>
    cases h
    rfl
  | cons c front ih =>
    obtain ⟨next, hstep, hfollow⟩ := follow_cons.1 h
    rw [List.cons_append, furthest_cons hstep, ih hfollow]

theorem furthest_of_follow (h : tree.follow place components = .ok goal) :
    tree.furthest place components = goal := by
  rw [← components.append_nil, furthest_append h, furthest]

theorem exists_follow_furthest (tree : Tree) (place : Location) (components : List Component) :
    ∃ front, front <+: components ∧
      tree.follow place front = .ok (tree.furthest place components) := by
  induction components generalizing place with
  | nil => exact ⟨[], List.prefix_rfl, rfl⟩
  | cons c rest ih =>
    cases hstep : tree.step place c.text with
    | error e => exact ⟨[], List.nil_prefix, by rw [furthest_of_error hstep, follow_nil]⟩
    | ok next =>
      obtain ⟨front, hfront, hfollow⟩ := ih next
      refine ⟨c :: front, (List.prefix_cons_inj c).2 hfront, follow_cons.2 ⟨next, hstep, ?_⟩⟩
      rw [furthest_cons hstep, hfollow]

/-- No way gets below a place that it does not start below without passing through that place. -/
theorem exists_follow_of_isPrefix (h : goal <+: tree.furthest place components) :
    goal <+: place ∨ ∃ front, front <+: components ∧ tree.follow place front = .ok goal := by
  induction components generalizing place with
  | nil => exact .inl h
  | cons c rest ih =>
    cases hstep : tree.step place c.text with
    | error e => exact .inl (by rwa [furthest_of_error hstep] at h)
    | ok next =>
      rw [furthest_cons hstep] at h
      rcases ih h with hnext | ⟨front, hfront, hfollow⟩
      · obtain ⟨-, ⟨-, rfl⟩ | ⟨-, rfl⟩ | ⟨name, -, rfl, -⟩⟩ := step_cases hstep
        · exact .inl hnext
        · exact .inl (hnext.trans (List.dropLast_prefix _))
        · -- The step goes down: the goal is the place below, or was passed before.
          rcases List.prefix_concat_iff.1 hnext with rfl | hplace
          · refine .inr ⟨[c], (List.prefix_cons_inj c).2 List.nil_prefix, ?_⟩
            exact follow_cons.2 ⟨_, hstep, follow_nil⟩
          · exact .inl hplace
      · exact .inr ⟨c :: front, (List.prefix_cons_inj c).2 hfront,
          follow_cons.2 ⟨next, hstep, hfollow⟩⟩

/-- Without going up, the way only gets deeper. -/
theorem isPrefix_of_follow (hdown : ∀ c ∈ components, c.Proper ∧ c ≠ .up)
    (h : tree.follow place components = .ok goal) : place <+: goal := by
  induction components generalizing place with
  | nil =>
    cases h
    exact List.prefix_rfl
  | cons c rest ih =>
    obtain ⟨⟨hproper, hup⟩, hrest⟩ := List.forall_mem_cons.1 hdown
    obtain ⟨next, hstep, hfollow⟩ := follow_cons.1 h
    refine List.IsPrefix.trans ?_ (ih hrest hfollow)
    obtain ⟨-, ⟨-, rfl⟩ | ⟨hdots, -⟩ | ⟨name, -, rfl, -⟩⟩ := step_cases hstep
    · exact List.prefix_rfl
    · cases c with
      | up => exact absurd rfl hup
      | name n =>
        rw [Component.text, Component.ofSegment?_of_proper hproper] at hdots
        cases hdots
      | root | here => cases hdots
    · exact List.prefix_append _ _

theorem isPrefix_furthest (hdown : ∀ c ∈ components, c.Proper ∧ c ≠ .up) :
    place <+: tree.furthest place components := by
  obtain ⟨front, hfront, hfollow⟩ := tree.exists_follow_furthest place components
  exact isPrefix_of_follow (fun c hc => hdown c (hfront.subset hc)) hfollow

/-! ### Segments and components -/

theorem follow_of_foldlM (h : segments.foldlM tree.step place = .ok goal) :
    tree.follow place (segments.filterMap Component.ofSegment?) = .ok goal := by
  induction segments generalizing place with
  | nil => exact h
  | cons segment segments ih =>
    obtain ⟨next, hstep, hrest⟩ := foldlM_cons_eq_ok.1 h
    cases hsegment : Component.ofSegment? segment with
    | none =>
      rw [List.filterMap_cons_none hsegment]
      rw [step_idle (step_cases hstep).1 hsegment] at hstep
      cases hstep
      exact ih hrest
    | some c =>
      rw [List.filterMap_cons_some hsegment]
      refine follow_cons.2 ⟨next, ?_, ih hrest⟩
      rwa [Component.text_of_ofSegment? hsegment]

/-- Segments that stand for no component lead nowhere else, but only from a directory. -/
theorem foldlM_of_follow (hgoal : tree.isDirectoryAt goal)
    (h : tree.follow place (segments.filterMap Component.ofSegment?) = .ok goal) :
    segments.foldlM tree.step place = .ok goal := by
  induction segments generalizing place with
  | nil => exact h
  | cons segment segments ih =>
    cases hsegment : Component.ofSegment? segment with
    | none =>
      rw [List.filterMap_cons_none hsegment] at h
      refine foldlM_cons_eq_ok.2 ⟨place, step_idle ?_ hsegment, ih h⟩
      cases hrest : segments.filterMap Component.ofSegment? with
      | nil =>
        rw [hrest] at h
        cases h
        exact hgoal
      | cons c rest =>
        rw [hrest] at h
        obtain ⟨next, hstep, -⟩ := follow_cons.1 h
        exact (step_cases hstep).1
    | some c =>
      rw [List.filterMap_cons_some hsegment] at h
      obtain ⟨next, hstep, hrest⟩ := follow_cons.1 h
      rw [Component.text_of_ofSegment? hsegment] at hstep
      exact foldlM_cons_eq_ok.2 ⟨next, hstep, ih hrest⟩

section Relative

variable {path : Path} {name : Text} (hrelative : path.isAbsolute = false)
include hrelative

theorem follow_of_locate (h : tree.locate path = .ok goal) :
    tree.follow tree.workingDirectory path.components = .ok goal := by
  obtain ⟨hne, hwidth⟩ := width_le_of_locate h
  rw [locate_eq hne hwidth, origin, hrelative, ← path.start?_append_body] at h
  rw [Path.components, Path.startComponent?]
  obtain hstart | hstart := path.start?_cases hrelative
  · rw [hstart] at h ⊢
    exact follow_of_foldlM h
  · rw [hstart] at h ⊢
    obtain ⟨next, hstep, hbody⟩ := foldlM_cons_eq_ok.1 h
    exact follow_cons.2 ⟨next, hstep, follow_of_foldlM hbody⟩

theorem locate_of_follow (hne : path.spelling ≠ []) (hwidth : path.spelling.width ≤ maxPath)
    (hgoal : tree.isDirectoryAt goal)
    (h : tree.follow tree.workingDirectory path.components = .ok goal) :
    tree.locate path = .ok goal := by
  rw [locate_eq hne hwidth, origin, hrelative, ← path.start?_append_body]
  rw [Path.components, Path.startComponent?] at h
  obtain hstart | hstart := path.start?_cases hrelative
  · rw [hstart] at h ⊢
    exact foldlM_of_follow hgoal h
  · rw [hstart] at h ⊢
    obtain ⟨next, hstep, hbody⟩ := follow_cons.1 h
    exact foldlM_cons_eq_ok.2 ⟨next, hstep, foldlM_of_follow hgoal hbody⟩

variable (hname : (Component.name name).Proper)
include hname

theorem follow_of_locate_join (h : tree.locate (path.join ⟨name⟩) = .ok goal) :
    ∃ place, tree.follow tree.workingDirectory path.components = .ok place ∧
      goal = place ++ [name] := by
  have hfollow := follow_of_locate (Path.isAbsolute_join_name hname hrelative) h
  rw [Path.components_join_name hname] at hfollow
  obtain ⟨place, hplace, hlast⟩ := follow_append.1 hfollow
  exact ⟨place, hplace, step_proper hname (foldlM_singleton.symm.trans hlast)⟩

theorem Proper.locate_join_of_follow (hproper : tree.Proper)
    (hwidth : (path.join ⟨name⟩).spelling.width ≤ maxPath)
    (hplace : tree.follow tree.workingDirectory path.components = .ok place)
    (hnode : (tree.nodeAt? (place ++ [name])).isSome) :
    tree.locate (path.join ⟨name⟩) = .ok (place ++ [name]) := by
  have htail : Path.isAbsolute ⟨name⟩ = false := Path.isAbsolute_mk_of_not_mem hname.2.2.2
  have hstep : tree.step place name = .ok (place ++ [name]) :=
    foldlM_singleton.symm.trans (hproper.descend hnode)
  by_cases hempty : path.spelling = []
  · obtain ⟨spelling⟩ := path
    cases hempty
    cases hplace
    have hsegments : Path.segments ⟨name⟩ = [name] := List.splitOn_eq_singleton hname.2.2.2
    rw [Path.join_of_empty rfl] at hwidth ⊢
    rw [locate_eq hname.1 hwidth, hsegments, foldlM_singleton, origin, htail]
    exact hstep
  · have hbase := locate_of_follow hrelative hempty ((Path.width_le_width_join htail).trans hwidth)
      (hproper.isDirectoryAt_of_append hnode) hplace
    rw [locate_join hbase hname.2.2.2 hwidth, hstep]

theorem Proper.pathExists_join_iff (hproper : tree.Proper)
    (hwidth : (path.join ⟨name⟩).spelling.width ≤ maxPath) :
    tree.pathExists (path.join ⟨name⟩) ↔
      ∃ place, tree.follow tree.workingDirectory path.components = .ok place ∧
        (tree.nodeAt? (place ++ [name])).isSome := by
  constructor
  · intro hexists
    obtain ⟨goal, hgoal, hnode⟩ := exists_locate_of_pathExists hexists
    obtain ⟨place, hplace, rfl⟩ := follow_of_locate_join hrelative hname hgoal
    exact ⟨place, hplace, hnode⟩
  · rintro ⟨place, hplace, hnode⟩
    rw [pathExists_of_locate (hproper.locate_join_of_follow hrelative hname hwidth hplace hnode),
      hnode]

end Relative

end Tree
end Reindent
