import Reindent.Proofs.Path.Components

/-!
# Reindent.Proofs.Path.Shown

What is displayed of a path.

* `Path.route`    — the components that are displayed.
* `shown_eq_iff`  — paths that are displayed alike have the same route.
* `route_eq_iff`  — relative paths have the same route if they are the same path, or if one of
  them is the other one with a dot in front.
-/

namespace Reindent

namespace Component

/-- The component with the given text. -/
def ofText : Text → Component
  | [] => .root
  | ['.'] => .here
  | ['.', '.'] => .up
  | n => .name n

theorem ofText_text {c : Component} (h : c.Proper) : ofText c.text = c := by
  cases c with
  | name n =>
    obtain ⟨hempty, hdot, hdots, -⟩ := h
    unfold text ofText
    split
    · exact absurd ‹n = []› hempty
    · exact absurd ‹n = ['.']› hdot
    · exact absurd ‹n = ['.', '.']› hdots
    · rfl
  | _ => rfl

theorem slash_not_mem_text {c : Component} (h : c.Proper) : '/' ∉ c.text := by
  cases c with
  | name n => exact h.2.2.2
  | _ => decide

end Component

namespace Path

variable {path p q : Path} {c : Component} {workingDirectory : List Text}

/-- The components of the path as seen from the working directory. -/
def route (path : Path) (workingDirectory : List Text) : List Component :=
  if path.isAbsolute then relativeTo (.root :: workingDirectory.map .name) path.components
  else path.components.filter (· != .here)

theorem mem_relativeTo {base path : List Component} (h : c ∈ relativeTo base path) :
    c = .up ∨ c ∈ path := by
  induction base, path using relativeTo.induct with
  | case1 path =>
    rw [relativeTo] at h
    exact .inr h
  | case2 base hbase =>
    rw [relativeTo] at h
    · obtain ⟨_, -, h⟩ := List.mem_map.1 h
      exact .inl h.symm
    · exact hbase
  | case3 base p path ih =>
    rw [relativeTo, if_pos rfl] at h
    rcases ih h with h | h
    · exact .inl h
    · exact .inr (List.mem_cons_of_mem _ h)
  | case4 b base p path hne =>
    rw [relativeTo, if_neg hne] at h
    simp only [List.cons_append, List.mem_cons, List.mem_append, List.mem_map] at h
    rcases h with h | ⟨_, _, h⟩ | h
    · exact .inl h
    · exact .inl h.symm
    · exact .inr (List.mem_cons.2 h)

theorem route_congr (h : p.components = q.components) :
    p.route workingDirectory = q.route workingDirectory := by
  rw [route, route, isAbsolute_congr h, h]

theorem proper_of_mem_route (h : c ∈ path.route workingDirectory) : c.Proper ∧ c ≠ .here := by
  unfold route at h
  split at h
  · rename_i habsolute
    rcases mem_relativeTo h with rfl | h
    · exact ⟨trivial, nofun⟩
    · refine ⟨proper_of_mem_components h, ?_⟩
      rintro rfl
      exact here_not_mem_components habsolute h
  · rw [List.mem_filter] at h
    exact ⟨proper_of_mem_components h.1, by simpa using h.2⟩

/-- The components whose texts are displayed; nothing is displayed as a dot. -/
def display (path : Path) (workingDirectory : List Text) : List Component :=
  if (path.route workingDirectory).isEmpty then [.here] else path.route workingDirectory

theorem shown_eq (path : Path) (workingDirectory : List Text) :
    path.shown workingDirectory =
      ['/'].intercalate ((path.display workingDirectory).map Component.text) := by
  change (if (path.route workingDirectory).isEmpty then _ else _) = _
  unfold display
  split <;> rfl

theorem display_ne_nil : path.display workingDirectory ≠ [] := by
  unfold display
  split <;> simp_all

theorem proper_of_mem_display (h : c ∈ path.display workingDirectory) : c.Proper := by
  unfold display at h
  split at h
  · rw [List.mem_singleton.1 h]
    trivial
  · exact (proper_of_mem_route h).1

/-- The displayed text can be read back. -/
theorem map_ofText_fields_shown (path : Path) (workingDirectory : List Text) :
    (Text.fields '/' (path.shown workingDirectory)).map Component.ofText =
      path.display workingDirectory := by
  have hslash : ∀ part ∈ (path.display workingDirectory).map Component.text, '/' ∉ part := by
    intro part hpart
    obtain ⟨c, hc, rfl⟩ := List.mem_map.1 hpart
    exact Component.slash_not_mem_text (proper_of_mem_display hc)
  rw [shown_eq, Text.fields, List.splitOn_intercalate '/' hslash (by simpa using display_ne_nil),
    List.map_map]
  have hback : ∀ c ∈ path.display workingDirectory, (Component.ofText ∘ Component.text) c = c :=
    fun c hc => Component.ofText_text (proper_of_mem_display hc)
  rw [List.map_congr_left hback, List.map_id']

/-- Paths that are displayed alike have the same route. -/
theorem shown_eq_iff :
    p.shown workingDirectory = q.shown workingDirectory ↔
      p.route workingDirectory = q.route workingDirectory := by
  constructor
  · intro h
    have hdisplay : p.display workingDirectory = q.display workingDirectory := by
      rw [← map_ofText_fields_shown, ← map_ofText_fields_shown, h]
    have hhere : ∀ path : Path, .here ∉ path.route workingDirectory :=
      fun path hpath => (proper_of_mem_route hpath).2 rfl
    have hp := hhere p
    have hq := hhere q
    unfold display at hdisplay
    split at hdisplay <;> split at hdisplay
    · simp_all
    · rw [← hdisplay] at hq
      exact absurd List.mem_cons_self hq
    · rw [hdisplay] at hp
      exact absurd List.mem_cons_self hp
    · exact hdisplay
  · intro h
    rw [shown_eq, shown_eq, display, display, h]

/-- Relative paths have the same route if they are the same path, or if one of them is the other
one with a dot in front. -/
theorem route_eq_iff (hp : p.isAbsolute = false) (hq : q.isAbsolute = false) :
    p.route workingDirectory = q.route workingDirectory ↔
      p.components = q.components ∨ p.components = .here :: q.components ∨
        q.components = .here :: p.components := by
  rw [route, route, hp, hq, if_neg Bool.false_ne_true, if_neg Bool.false_ne_true]
  constructor
  · intro h
    rcases components_filter_here hp with hp | hp <;> rcases components_filter_here hq with hq | hq
    · exact .inl (by rw [hp, hq, h])
    · exact .inr (.inr (by rw [hq, ← h, ← hp]))
    · exact .inr (.inl (by rw [hp, h, ← hq]))
    · exact .inl (by rw [hp, hq, h])
  · rintro (h | h | h)
    · rw [h]
    · rw [h]
      rfl
    · rw [h]
      rfl

end Path

end Reindent
