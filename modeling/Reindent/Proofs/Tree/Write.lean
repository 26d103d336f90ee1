import Mathlib.Data.List.Basic
import Reindent.Tree.Basic

/-!
# Reindent.Proofs.Tree.Write

What replacing a file leaves as it is.

* `Tree.SameShape`    — two trees have the same files and directories.
* `SameShape.locate`  — paths lead to the same places in both.
* `nodeAt?_write`     — a file that is replaced has the new content, and no other node changes.
-/

namespace Reindent
namespace Tree

/-- The trees have the same files and directories, whatever the files hold. -/
structure SameShape (tree tree' : Tree) : Prop where
  workingDirectory : tree'.workingDirectory = tree.workingDirectory
  kind : ∀ location, (tree'.nodeAt? location).map Node.isDirectory =
    (tree.nodeAt? location).map Node.isDirectory

variable {tree tree' : Tree}

namespace SameShape

theorem refl (tree : Tree) : SameShape tree tree :=
  ⟨rfl, fun _ => rfl⟩

theorem trans {tree'' : Tree} (h : SameShape tree tree') (h' : SameShape tree' tree'') :
    SameShape tree tree'' :=
  ⟨h'.workingDirectory.trans h.workingDirectory, fun location =>
    (h'.kind location).trans (h.kind location)⟩

theorem isDirectoryAt (h : SameShape tree tree') (location : Location) :
    tree'.isDirectoryAt location = tree.isDirectoryAt location := by
  have hany : ∀ node? : Option Node, node?.any Node.isDirectory =
      (node?.map Node.isDirectory).any id := fun node? => by rw [Option.any_map]; rfl
  rw [Tree.isDirectoryAt, Tree.isDirectoryAt, hany, h.kind, ← hany]

theorem isSome_nodeAt? (h : SameShape tree tree') (location : Location) :
    (tree'.nodeAt? location).isSome = (tree.nodeAt? location).isSome := by
  rw [← Option.isSome_map (f := Node.isDirectory), h.kind, Option.isSome_map]

theorem locate (h : SameShape tree tree') (path : Path) :
    tree'.locate path = tree.locate path := by
  have hstep : tree'.step = tree.step := by
    funext location segment
    simp only [Tree.step, h.isDirectoryAt, h.isSome_nodeAt?]
  rw [Tree.locate, Tree.locate, hstep, h.workingDirectory]

theorem pathExists (h : SameShape tree tree') (path : Path) :
    tree'.pathExists path = tree.pathExists path := by
  rw [Tree.pathExists, Tree.pathExists, Tree.node?, Tree.node?, h.locate]
  cases tree.locate path with
  | error e => rfl
  | ok location =>
    have hsome := h.isSome_nodeAt? location
    cases hnode : tree.nodeAt? location with
    | none =>
      rw [hnode, Option.isSome_none, Option.isSome_eq_false_iff, Option.isNone_iff_eq_none] at hsome
      simp only [hnode, hsome]
    | some node =>
      rw [hnode, Option.isSome_some] at hsome
      obtain ⟨node', hnode'⟩ := Option.isSome_iff_exists.1 hsome
      simp [hnode, hnode', Except.toOption]

end SameShape

/-- What a path leads to hangs on the place alone. -/
theorem read_congr {path : Path} (hlocate : tree'.locate path = tree.locate path)
    (hnode : ∀ location, tree.locate path = .ok location →
      tree'.nodeAt? location = tree.nodeAt? location) : tree'.read path = tree.read path := by
  rw [read, read, node?, node?, hlocate]
  cases hplace : tree.locate path with
  | error e => rfl
  | ok location => simp only [hnode location hplace]

theorem node_of_read {path : Path} {content : ByteArray} (h : tree.read path = .ok content) :
    ∃ location, tree.locate path = .ok location ∧
      tree.nodeAt? location = some (.file content) := by
  rw [read, node?] at h
  cases hplace : tree.locate path with
  | error e =>
    rw [hplace] at h
    cases h
  | ok location =>
    refine ⟨location, rfl, ?_⟩
    cases hnode : tree.nodeAt? location with
    | none =>
      simp only [hplace, hnode] at h
      cases h
    | some node =>
      cases node with
      | file old =>
        simp only [hplace, hnode, Except.ok.injEq] at h
        rw [h]
      | directory =>
        simp only [hplace, hnode] at h
        cases h

/-! ### Writing -/

theorem lookup_write (entries : List (Location × Node)) (location place : Location) (node : Node) :
    (entries.map fun (spot, old) =>
        if spot = location then (spot, node) else (spot, old)).lookup place =
      if place = location then (entries.lookup place).map fun _ => node
      else entries.lookup place := by
  induction entries with
  | nil => simp
  | cons entry rest ih =>
    obtain ⟨head, old⟩ := entry
    by_cases hplace : place = head
    · by_cases hhead : head = location <;> simp [hplace, hhead]
    · have hne : (place == head) = false := beq_eq_false_iff_ne.2 hplace
      have hskip : ∀ (old : Node) rest, ((head, old) :: rest).lookup place = rest.lookup place :=
        fun old rest => by rw [List.lookup_cons, hne]
      have hhead : (if head = location then (head, node) else (head, old)) =
          (head, if head = location then node else old) := by split <;> rfl
      simp only [List.map_cons, hhead, hskip, ih]

/-- The file at a place is replaced, and nothing else. -/
theorem nodeAt?_write {location : Location} {old : ByteArray}
    (hold : tree.nodeAt? location = some (.file old)) (content : ByteArray) (place : Location) :
    (tree.write location content).nodeAt? place =
      if place = location then some (.file content) else tree.nodeAt? place := by
  cases place with
  | nil =>
    have hne : [] ≠ location := by
      rintro rfl
      cases hold
    rw [if_neg hne]
    rfl
  | cons name names =>
    refine (lookup_write tree.entries location (name :: names) (.file content)).trans ?_
    split
    · rename_i hplace
      subst hplace
      have hlookup : tree.entries.lookup (name :: names) = some (.file old) := hold
      rw [hlookup, Option.map_some]
    · rfl

theorem sameShape_write {location : Location} {old : ByteArray}
    (hold : tree.nodeAt? location = some (.file old)) (content : ByteArray) :
    SameShape tree (tree.write location content) := by
  refine ⟨rfl, fun place => ?_⟩
  rw [nodeAt?_write hold]
  split
  · rename_i hplace
    rw [hplace, hold]
    rfl
  · rfl

end Tree
end Reindent
