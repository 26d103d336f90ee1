import Reindent.Proofs.Pass.Conservation
import Reindent.Proofs.Pass.Tandem

/-!
# Reindent.Proofs.Frame.Waiting

The waiting lines have no part in the structure, but for their keys.

* `Frame.mapWaiting` — the frame, with every line that waits in it replaced by another one.
* `place_mapWaiting`, `placeAtRoot_mapWaiting` — a line gets the same place.
* `Rendering.waiting` — frames end in the same way.
* `State.Mirrors`    — two states that only differ in this way.
* `Mirrors.verdict`, `Mirrors.opening?` — the same attributes are lifted and the same frames opened.
-/

namespace Reindent

variable {g : Relocation → Relocation}

theorem Relocation.sets_map (hkey : ∀ r, (g r).key = r.key) (key : Text)
    (waiting : List Relocation) : sets key (waiting.map g) = sets key waiting := by
  simp only [sets, List.any_map, Function.comp_def, hkey]

/-! ### Children -/

namespace Entry

def mapWaiting (g : Relocation → Relocation) (entry : Entry) : Entry :=
  { entry with pending := entry.pending.map g }

theorem hasKey_mapWaiting (hkey : ∀ r, (g r).key = r.key) (entry : Entry) (key : Text) :
    (entry.mapWaiting g).hasKey key = entry.hasKey key := by
  rw [hasKey, hasKey, mapWaiting, Relocation.sets_map hkey]

theorem mapWaiting_ofLine (g : Relocation → Relocation) (line : Line) (output : Nat) :
    (ofLine line output).mapWaiting g = ofLine line output := by
  rw [mapWaiting, pending_ofLine, List.map_nil]
  simp only [ofLine]
  split <;> rfl

end Entry

namespace Scope

def mapWaiting (g : Relocation → Relocation) (scope : Scope) : Scope :=
  { scope with entry := scope.entry.map (Entry.mapWaiting g) }

theorem item?_mapWaiting (g : Relocation → Relocation) (scope : Scope) :
    (scope.mapWaiting g).item? = scope.item?.map (Entry.mapWaiting g) := by
  cases h : scope.entry with
  | none => simp [mapWaiting, item?, h]
  | some entry =>
    simp only [mapWaiting, item?, h, Option.map_some, Option.filter]
    cases hitem : entry.item <;> simp [Entry.mapWaiting, hitem]

theorem mapWaiting_append (g : Relocation → Relocation) (scope : Scope)
    (lines : List Relocation) :
    (scope.append lines).mapWaiting g = (scope.mapWaiting g).append (lines.map g) := by
  cases h : scope.entry <;> simp [mapWaiting, append, h, Entry.mapWaiting]

theorem record_mapWaiting (g : Relocation → Relocation) (scope : Scope) (line : Line)
    (placement : Placement) :
    (scope.mapWaiting g).record line placement =
      ((scope.record line placement).1.mapWaiting g,
        (scope.record line placement).2.map (Entry.mapWaiting g)) := by
  cases placement with
  | entry indent => simp [record, mapWaiting, Entry.mapWaiting_ofLine]
  | member indent =>
    cases h : scope.entry with
    | none => simp [record, mapWaiting, h]
    | some entry =>
      simp only [record, mapWaiting, h, Option.map_some, Option.map_none]
      rfl
  | carried indent => rfl
  | unchanged => rfl

end Scope

/-! ### Frames -/

namespace Frame

def mapWaiting (g : Relocation → Relocation) (frame : Frame) : Frame :=
  { frame with scope := frame.scope.mapWaiting g, relocations := frame.relocations.map g }

theorem mapWaiting_of_waiting (g : Relocation → Relocation) {frame : Frame}
    (h : frame.waiting = []) : frame.mapWaiting g = frame := by
  obtain ⟨role, key, inputIndent, baseIndent, inlineArgs, ⟨childInput, entry⟩, relocations⟩ := frame
  simp only [waiting, List.append_eq_nil_iff] at h
  obtain ⟨hentry, rfl⟩ := h
  cases entry with
  | none => rfl
  | some entry =>
    have hpending : entry.pending = [] := hentry
    have hsame : entry.mapWaiting g = entry := by
      rw [Entry.mapWaiting, hpending, List.map_nil, ← hpending]
    simp [mapWaiting, Scope.mapWaiting, hsame]

theorem anchorFor_mapWaiting (g : Relocation → Relocation) (frame : Frame) (i level : Nat) :
    (frame.mapWaiting g).anchorFor i level = frame.anchorFor i level := by
  cases h : frame.scope.entry <;>
    simp [anchorFor, mapWaiting, Scope.mapWaiting, h, Entry.mapWaiting, childIndent]

end Frame

theorem place_mapWaiting (g : Relocation → Relocation) (frame : Frame) (line : Line) :
    place (frame.mapWaiting g) line = place frame line := by
  have hitem : (frame.mapWaiting g).scope.item? = frame.scope.item?.map (Entry.mapWaiting g) :=
    Scope.item?_mapWaiting _ _
  simp only [place, hitem, Frame.anchorFor_mapWaiting]
  cases frame.scope.item? with
  | none => rfl
  | some entry => rfl

theorem placeAtRoot_mapWaiting (g : Relocation → Relocation) (scope : Scope) (line : Line) :
    placeAtRoot (scope.mapWaiting g) line = placeAtRoot scope line := by
  cases h : scope.entry <;> simp [placeAtRoot, Scope.mapWaiting, h]; rfl

/-- The same frames and children, with other lines waiting in them. -/
def Rendering.waiting (g : Relocation → Relocation) : Rendering where
  frame := Frame.mapWaiting g
  root := Scope.mapWaiting g
  line := g
  key _ := rfl
  baseIndent _ := rfl
  relocations _ := rfl
  pending _ := Option.map_map _ _ _
  isItem f := by
    have h : (f.mapWaiting g).scope.item? = f.scope.item?.map (Entry.mapWaiting g) :=
      Scope.item?_mapWaiting _ _
    rw [h, Option.isSome_map]
  append f lines := by simp only [Frame.mapWaiting, Scope.mapWaiting_append]
  rootPending _ := Option.map_map _ _ _
  rootIsItem scope := by rw [Scope.item?_mapWaiting, Option.isSome_map]
  rootAppend scope lines := Scope.mapWaiting_append g scope lines
  rootEnded _ := rfl

namespace Stack

theorem innermostItem?_mapWaiting (g : Relocation → Relocation) (stack : Stack) :
    innermostItem? (stack.map (Frame.mapWaiting g)) =
      (innermostItem? stack).map (Entry.mapWaiting g) := by
  induction stack with
  | nil => rfl
  | cons frame rest ih =>
    have hitem : (frame.mapWaiting g).scope.item? = frame.scope.item?.map (Entry.mapWaiting g) :=
      Scope.item?_mapWaiting _ _
    simp only [innermostItem?, List.map_cons, List.findSome?_cons, hitem] at ih ⊢
    cases frame.scope.item? with
    | none => exact ih
    | some entry => rfl

theorem ownerItem?_mapWaiting (g : Relocation → Relocation) (stack : Stack) :
    ownerItem? (stack.map (Frame.mapWaiting g)) =
      (ownerItem? stack).map (Entry.mapWaiting g) := by
  rw [ownerItem?, ownerItem?, ← List.map_tail, innermostItem?_mapWaiting]

end Stack

/-! ### States -/

namespace Pass

/-- The verdict about the innermost frame with other lines waiting in it. -/
def Verdict.mapWaiting (g : Relocation → Relocation) : Verdict → Verdict
  | .stays => .stays
  | .alreadySet key frame => .alreadySet key (frame.mapWaiting g)
  | .stranded key frame => .stranded key (frame.mapWaiting g)

namespace State

/-- The open frames and the children of the document are the same, but for the waiting lines. -/
structure Mirrors (g : Relocation → Relocation) (state state' : State) : Prop where
  stack : state'.stack = state.stack.map (Frame.mapWaiting g)
  root : state'.root = state.root.mapWaiting g

variable {state state' : State} {registry : Registry}

namespace Mirrors

variable (h : state.Mirrors g state')
include h

theorem head? : state'.stack.head? = state.stack.head?.map (Frame.mapWaiting g) := by
  rw [h.stack, List.head?_map]

theorem scope : state'.scope = state.scope.mapWaiting g := by
  cases hstack : state.stack <;> simp [State.scope, h.stack, h.root, hstack, Frame.mapWaiting]

theorem place (line : Line) : state'.place line = state.place line := by
  cases hstack : state.stack with
  | nil =>
    simp only [State.place, h.stack, h.root, hstack, List.map_nil]
    exact placeAtRoot_mapWaiting _ _ _
  | cons frame rest =>
    simp only [State.place, h.stack, hstack, List.map_cons]
    exact place_mapWaiting _ _ _

theorem owner? : state'.owner? = state.owner?.map (Entry.mapWaiting g) := by
  rw [State.owner?, State.owner?, h.root, h.stack, Scope.item?_mapWaiting,
    Stack.ownerItem?_mapWaiting]
  cases state.stack.ownerItem? <;> rfl

/-- The same attributes are lifted. -/
theorem verdict (hkey : ∀ r, (g r).key = r.key) (line : Line) (ahead : Option Line) :
    state'.verdict registry line ahead = (state.verdict registry line ahead).mapWaiting g := by
  have howner : ∀ key, (state'.owner?.any fun item => item.hasKey key) =
      state.owner?.any fun item => item.hasKey key := by
    intro key
    rw [h.owner?]
    cases state.owner? with
    | none => rfl
    | some entry => exact Entry.hasKey_mapWaiting hkey entry key
  cases hstack : state.stack with
  | nil =>
    simp only [State.verdict, h.stack, hstack, List.map_nil]
    cases line.key <;> rfl
  | cons frame rest =>
    simp only [State.verdict, h.stack, hstack, List.map_cons, howner]
    cases line.key with
    | none => rfl
    | some key =>
      have hsets : Relocation.sets key (frame.mapWaiting g).relocations =
          Relocation.sets key frame.relocations := Relocation.sets_map hkey key frame.relocations
      have hrole : (frame.mapWaiting g).role = frame.role := rfl
      have hframeKey : (frame.mapWaiting g).key = frame.key := rfl
      simp only [hrole, hframeKey, hsets]
      split
      · split <;> rfl
      · rfl

theorem predict? (next : Line) : state'.predict? registry next = state.predict? registry next := by
  have hcloses : (state'.stack.head?.any fun frame => frame.closesAt registry next) =
      state.stack.head?.any fun frame => frame.closesAt registry next := by
    rw [h.head?]
    cases state.stack.head? <;> rfl
  rw [State.predict?, State.predict?, hcloses, h.place]

theorem listsUnder (column base : Nat) (next : Line) :
    state'.listsUnder registry column base next = state.listsUnder registry column base next := by
  rw [State.listsUnder, State.listsUnder, h.predict?]

theorem continuesInlineArgs (column : Nat) (next : Line) :
    state'.continuesInlineArgs registry column next =
      state.continuesInlineArgs registry column next := by
  rw [State.continuesInlineArgs, State.continuesInlineArgs, h.predict?]

/-- The same frames are opened. -/
theorem opening? (line : Line) (placement : Placement) (indent : Nat) (ahead : Option Line) :
    state'.opening? registry line placement indent ahead =
      state.opening? registry line placement indent ahead := by
  have hleaf : (state'.stack.head?.any fun frame => frame.role.isLeaf) =
      state.stack.head?.any fun frame => frame.role.isLeaf := by
    rw [h.head?]
    cases state.stack.head? <;> rfl
  have hlists : ∀ column base, state'.listsUnder registry column base =
      state.listsUnder registry column base := fun column base =>
    funext fun next => h.listsUnder column base next
  have hcontinues : ∀ column, state'.continuesInlineArgs registry column =
      state.continuesInlineArgs registry column := fun column =>
    funext fun next => h.continuesInlineArgs column next
  simp only [State.opening?, State.frameFor?, hleaf, hlists, hcontinues]

end Mirrors
end State
end Pass
end Reindent
