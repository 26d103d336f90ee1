import Reindent.Proofs.Frame.Core

/-!
# Reindent.Proofs.Pass.Core

What a pass knows, without the ends of lines, and as part of a pass that started further up.

* `State.bare`   — the state, with other lines above those that it has written.
* `bare_flush`, `tandem_bare` — lines that wait are written in the same places.
* `verdict_bare`, `opening?_bare` — the same attributes are lifted and the same frames opened.
-/

namespace Reindent

def Event.bare (n : Nat) : Event → Event
  | tabIndentation line => tabIndentation (line + n)
  | alreadySet line key frameKey => alreadySet (line + n) key frameKey
  | stranded line key role frameKey => stranded (line + n) key role frameKey
  | moved line key origin indent => moved (line + n) key origin indent
  | event => event

def Stats.bare (n : Nat) (stats : Stats) : Stats :=
  { stats with malformed := stats.malformed.map (· + n) }

namespace Pass

def bare (pass : Pass) : Pass :=
  { pass with
    lines := pass.lines.map (OutLine.bare 0)
    stats := pass.stats.bare 0
    events := pass.events.map (Event.bare 0) }

def Failure.bare (n : Nat) (failure : Failure) : Failure :=
  { failure with events := failure.events.map (Event.bare n) }

/-- The outcome of a part of a pass, made bare. -/
def outcome {α β : Type} (n : Nat) (f : α → β) : Except Failure α → Except Failure β
  | .ok value => .ok (f value)
  | .error failure => .error (failure.bare n)

/-- The verdict about the innermost frame as it is without the ends of lines. -/
def Verdict.bare (n : Nat) : Verdict → Verdict
  | .stays => .stays
  | .alreadySet key frame => .alreadySet key (frame.bare n)
  | .stranded key frame => .stranded key (frame.bare n)

namespace State

/-- The state without the ends of lines, in a pass that has written the lines `above`, newest
first, before the document. -/
def bare (above : List OutLine) (state : State) : State :=
  { state with
    stack := state.stack.map (Frame.bare above.length)
    root := state.root.bare above.length
    orphans := state.orphans.map (Relocation.bare above.length)
    written := state.written.map (OutLine.bare above.length) ++ above
    stats := state.stats.bare above.length
    events := state.events.map (Event.bare above.length) }

variable {registry : Registry} {above : List OutLine}

/-! ### Moves between the buffers -/

theorem moved_bare (n : Nat) (r : Relocation) : moved (r.bare n) = (moved r).bare n := by
  simp only [moved, Relocation.bare, OutLine.bare, RawLine.bare, Relocation.render,
    Text.core_spaces_append]

section Buffers

/- Relocations are written above blank lines and comments, so these must not be the last ones that
were written above the document. -/
variable (habove : above.takeWhile OutLine.trivia = [])
include habove

theorem takeWhile_trivia_append (written : List OutLine) :
    (written ++ above).takeWhile OutLine.trivia = written.takeWhile OutLine.trivia := by
  rw [List.takeWhile_append, habove, List.append_nil]
  split
  · rename_i hlength
    exact ((List.takeWhile_prefix OutLine.trivia).eq_of_length hlength).symm
  · rfl

theorem dropWhile_trivia_append (written : List OutLine) :
    (written ++ above).dropWhile OutLine.trivia = written.dropWhile OutLine.trivia ++ above := by
  have h := List.takeWhile_append_dropWhile (p := OutLine.trivia) (l := written ++ above)
  rw [takeWhile_trivia_append habove] at h
  refine List.append_cancel_left (h.trans ?_)
  rw [← List.append_assoc, List.takeWhile_append_dropWhile]

theorem bare_flush (state : State) (lines : List Relocation) :
    (state.flush lines).bare above =
      (state.bare above).flush (lines.map (Relocation.bare above.length)) := by
  have hmoved : (lines.map moved).map (OutLine.bare above.length) =
      (lines.map (Relocation.bare above.length)).map moved := by
    rw [List.map_map, List.map_map]
    exact List.map_congr_left fun r _ => (moved_bare above.length r).symm
  have htrivia : OutLine.trivia ∘ OutLine.bare above.length = OutLine.trivia := rfl
  simp only [flush, bare, List.map_append, List.map_reverse, hmoved, takeWhile_trivia_append habove,
    dropWhile_trivia_append habove, List.takeWhile_map, List.dropWhile_map, htrivia,
    List.length_map, List.map_map, List.append_assoc]
  rfl

/-- Frames end in the same way. -/
theorem tandem_bare :
    Tandem (.waiting (Relocation.bare above.length))
      fun state state' => state' = state.bare above where
  stack := by
    rintro state _ rfl
    rfl
  root := by
    rintro state _ rfl
    rfl
  orphans := by
    rintro state _ rfl
    rfl
  flush := by
    rintro state _ rfl waiting
    exact (bare_flush habove state waiting).symm
  log := by
    rintro state _ rfl _ _ _
    rfl
  update := by
    rintro state _ rfl _ _ _
    rfl

theorem bare_flushEntry (state : State) (entry : Option Entry) :
    (state.flushEntry entry).bare above =
      (state.bare above).flushEntry (entry.map (Entry.bare above.length)) :=
  ((tandem_bare habove).flushEntry rfl (Option.map_map _ _ _)).symm

theorem bare_closeFor (state : State) (line : Line) :
    (state.closeFor registry line).bare above =
      (state.bare above).closeFor registry line.bare := by
  have hcloses : ∀ frame : Frame, (frame.bare above.length).closesAt registry line.bare =
      frame.closesAt registry line := fun frame => frame.closesAt_bare above.length registry line
  exact ((tandem_bare habove).closeFor rfl hcloses).symm

end Buffers

/-! ### Placing and writing -/

/-- A state without the ends of lines only differs in the lines that wait. -/
theorem mirrors_bare (state : State) :
    state.Mirrors (Relocation.bare above.length) (state.bare above) :=
  ⟨rfl, rfl⟩

theorem scope_bare (state : State) :
    (state.bare above).scope = state.scope.bare above.length :=
  (mirrors_bare state).scope

theorem bare_withScope (state : State) (scope : Scope) :
    (state.withScope scope).bare above =
      (state.bare above).withScope (scope.bare above.length) := by
  cases hstack : state.stack <;> simp [withScope, bare, hstack, Frame.bare]

theorem place_bare (state : State) (line : Line) :
    (state.bare above).place line.bare = state.place line :=
  (mirrors_bare state).place line.bare

theorem bare_record (habove : above.takeWhile OutLine.trivia = []) (state : State) {line : Line}
    (hread : line.IsRead) (placement : Placement) :
    (state.record line placement).bare above =
      (state.bare above).record line.bare placement := by
  simp only [record, scope_bare, Scope.bare_record _ _ hread, bare_flushEntry habove,
    bare_withScope]

theorem bare_writeAt (state : State) {input : InputLine} (hread : input.line.IsRead)
    (column : Nat) :
    (state.writeAt input column).bare above =
      (state.bare above).writeAt (input.bare above.length) column := by
  have hindent : (input.bare above.length).line.indent = input.line.indent := rfl
  have hcontent : (input.bare above.length).line.content = Text.core input.line.content :=
    hread.content_bare
  simp only [writeAt, hindent, hcontent, ← Text.core_spaces_append]
  split <;> rfl

theorem bare_writeBody (state : State) {input : InputLine} (hread : input.line.IsRead)
    (shift : Int) :
    (state.writeBody input shift).bare above =
      (state.bare above).writeBody (input.bare above.length) shift := by
  have hindent : (input.bare above.length).line.indent = input.line.indent := rfl
  have hcategory : (input.bare above.length).line.category = input.line.category := rfl
  have hcontent : (input.bare above.length).line.content = Text.core input.line.content :=
    hread.content_bare
  simp only [writeBody, hindent, hcategory, hcontent, ← Text.core_spaces_append]
  split <;> rfl

theorem bare_passThrough (state : State) (input : InputLine) :
    (state.passThrough input).bare above =
      (state.bare above).passThrough (input.bare above.length) := by
  have hcategory : (input.bare above.length).line.category = input.line.category := rfl
  have hnumber : (input.bare above.length).number = input.number + above.length := rfl
  have hmalformed : (state.bare above).stats.malformed ++ [input.number + above.length] =
      (state.stats.malformed ++ [input.number]).map (· + above.length) := by
    rw [List.map_append]
    rfl
  simp only [passThrough, hcategory, hnumber, hmalformed]
  split <;> rfl

/-! ### Attributes -/

theorem verdict_bare (state : State) (line : Line) (ahead : Option Line) :
    (state.bare above).verdict registry line.bare (ahead.map Line.bare) =
      (state.verdict registry line ahead).bare above.length := by
  have hlines : state.verdict registry line.bare (ahead.map Line.bare) =
      state.verdict registry line ahead := by
    cases ahead <;> rfl
  have hverdict : ∀ verdict : Verdict, verdict.bare above.length =
      verdict.mapWaiting (Relocation.bare above.length) := by
    intro verdict
    cases verdict <;> rfl
  rw [(mirrors_bare state).verdict (fun _ => rfl), hlines, hverdict]

theorem bare_liftOut (state : State) {input : InputLine} (hread : input.line.IsRead)
    (key : Text) :
    (state.liftOut input key).bare above =
      (state.bare above).liftOut (input.bare above.length) key := by
  have hcontent : (input.bare above.length).line.content = Text.core input.line.content :=
    hread.content_bare
  cases hstack : state.stack with
  | nil => simp [liftOut, bare, hstack]
  | cons frame rest =>
    have hbare : (state.bare above).stack =
        frame.bare above.length :: rest.map (Frame.bare above.length) := by
      rw [bare, hstack, List.map_cons]
    simp only [liftOut, hstack, hbare, hcontent]
    simp only [bare, List.map_cons, Frame.bare, List.map_append, List.map_nil, Relocation.bare]
    rfl

/-! ### Frames that a line opens -/

theorem listsUnder_bare (state : State) (column base : Nat) (next : Line) :
    (state.bare above).listsUnder registry column base next.bare =
      state.listsUnder registry column base next :=
  (mirrors_bare state).listsUnder column base next.bare

theorem continuesInlineArgs_bare (state : State) (column : Nat) (next : Line) :
    (state.bare above).continuesInlineArgs registry column next.bare =
      state.continuesInlineArgs registry column next :=
  (mirrors_bare state).continuesInlineArgs column next.bare

theorem filter_bare {p q : Line → Bool} (h : ∀ line, p line.bare = q line) (ahead : Option Line) :
    (ahead.map Line.bare).filter p = (ahead.filter q).map Line.bare := by
  cases ahead with
  | none => rfl
  | some next =>
    simp only [Option.map_some, Option.filter, h]
    split <;> rfl

theorem frameFor?_bare (state : State) (key : Text) (column base : Nat) (ahead : Option Line) :
    (state.bare above).frameFor? registry key column base (ahead.map Line.bare) =
      state.frameFor? registry key column base ahead := by
  simp only [frameFor?, filter_bare (listsUnder_bare state column base), Option.map_map]
  rfl

theorem opening?_bare (state : State) {line : Line} (hread : line.IsRead) (placement : Placement)
    (indent : Nat) (ahead : Option Line) :
    (state.bare above).opening? registry line.bare placement indent (ahead.map Line.bare) =
      state.opening? registry line placement indent ahead := by
  have hleaf : ((state.bare above).stack.head?.any fun frame => frame.role.isLeaf) =
      state.stack.head?.any fun frame => frame.role.isLeaf := by
    rw [(mirrors_bare state).head?]
    cases state.stack.head? <;> rfl
  have hkey : line.bare.key = line.key := rfl
  simp only [opening?, hleaf, hkey, Line.openKeyColumns?_bare hread, frameFor?_bare]
  refine bind_congr fun _ => bind_congr fun key => bind_congr fun columns =>
    bind_congr fun frame => ?_
  split
  · rw [filter_bare (continuesInlineArgs_bare state columns.1)]
    cases ahead.filter (state.continuesInlineArgs registry columns.1) <;> rfl
  · rfl

end State
end Pass
end Reindent
