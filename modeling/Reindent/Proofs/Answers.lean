import Mathlib

/-!
# Reindent.Proofs.Answers

Answers that can be errors.

* `mapM_eq_ok`        — a list is answered element by element.
* `mem_of_mapM_eq_ok` — what is among the answers.
* `exists_mapM_eq_ok` — when all elements are answered.
* `foldlM_append_eq_ok` — a run over two lists is a run over the second from where the first ends.
-/

namespace Reindent

variable {ε ε' α β : Type} {f : α → Except ε β} {xs : List α} {ys : List β}

theorem mapError_eq_ok {x : Except ε β} {g : ε → ε'} {y : β} :
    x.mapError g = .ok y ↔ x = .ok y := by
  cases x <;> simp [Except.mapError]

theorem mapM_eq_ok : xs.mapM f = .ok ys ↔ List.Forall₂ (fun x y => f x = .ok y) xs ys := by
  induction xs generalizing ys with
  | nil => cases ys <;> simp [pure, Except.pure]
  | cons x xs ih =>
    rw [List.mapM_cons]
    cases hx : f x with
    | error e => cases ys <;> simp [bind, Except.bind, hx]
    | ok y =>
      cases hxs : xs.mapM f <;> cases ys <;>
        simp [bind, Except.bind, pure, Except.pure, ← ih, hx, hxs]

theorem mem_of_mapM_eq_ok (h : xs.mapM f = .ok ys) {y : β} : y ∈ ys ↔ ∃ x ∈ xs, f x = .ok y := by
  rw [mapM_eq_ok] at h
  induction h with
  | nil => simp
  | cons hx _ ih => simp [ih, hx, eq_comm (a := y)]

theorem exists_mapM_eq_ok : (∃ ys, xs.mapM f = .ok ys) ↔ ∀ x ∈ xs, ∃ y, f x = .ok y := by
  simp only [mapM_eq_ok]
  induction xs with
  | nil => simp
  | cons x xs ih =>
    rw [List.forall_mem_cons, ← ih]
    constructor
    · rintro ⟨_, _ | ⟨hx, hxs⟩⟩
      exact ⟨⟨_, hx⟩, _, hxs⟩
    · rintro ⟨⟨y, hx⟩, ys, hxs⟩
      exact ⟨y :: ys, .cons hx hxs⟩

theorem mapM_eq_ok_map {g : α → β} (h : ∀ x ∈ xs, f x = .ok (g x)) :
    xs.mapM f = .ok (xs.map g) := by
  rw [mapM_eq_ok, List.forall₂_map_right_iff]
  exact List.forall₂_same.2 h

theorem mapM_append_of_ok {xs' : List α} {ys' : List β} (h : xs.mapM f = .ok ys)
    (h' : xs'.mapM f = .ok ys') : (xs ++ xs').mapM f = .ok (ys ++ ys') := by
  rw [List.mapM_append, h, h']
  rfl

section Fold

variable {g : β → α → Except ε β} {a b m : β} {zs : List α}

theorem foldlM_singleton {x : α} : [x].foldlM g a = g a x := by
  cases h : g a x <;> simp [bind, Except.bind, pure, Except.pure, h]

theorem foldlM_append_of_ok (h : xs.foldlM g a = .ok m) :
    (xs ++ zs).foldlM g a = zs.foldlM g m := by
  rw [List.foldlM_append, h]
  rfl

theorem foldlM_append_eq_ok :
    (xs ++ zs).foldlM g a = .ok b ↔ ∃ m, xs.foldlM g a = .ok m ∧ zs.foldlM g m = .ok b := by
  rw [List.foldlM_append]
  cases h : xs.foldlM g a <;> simp [bind, Except.bind]

theorem foldlM_cons_eq_ok {x : α} :
    (x :: xs).foldlM g a = .ok b ↔ ∃ m, g a x = .ok m ∧ xs.foldlM g m = .ok b := by
  rw [← List.singleton_append, foldlM_append_eq_ok]
  simp only [foldlM_singleton]

end Fold

end Reindent
