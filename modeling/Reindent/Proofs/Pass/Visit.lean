import Reindent.Pass.Run

/-!
# Reindent.Proofs.Pass.Visit

A pass, line by line.

* `Visit`      — a line, and what the pass knows when it comes to it.
* `trail`      — the visits of a pass, from the top.
* `Visit.placement`, `Visit.depth` — the place that a line gets, and how many frames are around it.
* `Visit.out`  — the line of the output that comes of it.
* `Visit.outcome_step` — the four things that can become of a line.
-/

namespace Reindent
namespace Pass

structure Visit where
  /-- What the pass knows after the lines above. -/
  state : State
  input : InputLine
  /-- The lines below. -/
  rest : List InputLine
  deriving DecidableEq, Repr

/-- The visits of a pass up to the line that it breaks off at. -/
def trail (registry : Registry) : State → List InputLine → List Visit
  | _, [] => []
  | state, input :: rest =>
    ⟨state, input, rest⟩ ::
      match state.step registry input rest with
      | .ok next => trail registry next rest
      | .error _ => []

/-- The visits of a pass over the document `text`. -/
def trailOf (registry : Registry) (text : Text) : List Visit :=
  trail registry {} (InputLine.ofLines 1 text.splitLines)

/-- Another log. -/
def State.withEvents (state : State) (events : List Event) : State :=
  { state with events }

namespace Visit

/-- The line is text of a block scalar. -/
def isText (visit : Visit) : Bool :=
  visit.state.body.any (State.continuesBody visit.input.line)

/-- The line takes part in the structure. -/
def isStructural (visit : Visit) : Bool :=
  !visit.isText && visit.input.line.isStructural

/-- The state with the frames ended that the line ends. -/
def ready (registry : Registry) (visit : Visit) : State :=
  { visit.state with body := none }.closeFor registry visit.input.line

def isLifted (registry : Registry) (visit : Visit) : Bool :=
  match (visit.ready registry).verdict registry visit.input.line
      (InputLine.nextStructural? visit.rest) with
  | .stranded _ _ => true
  | .stays | .alreadySet _ _ => false

/-- The line is placed among the children of a frame or of the document. -/
def isPlaced (registry : Registry) (visit : Visit) : Bool :=
  visit.isStructural && !visit.isLifted registry

/-- The line is lifted out of the innermost frame. -/
def isRelocated (registry : Registry) (visit : Visit) : Bool :=
  visit.isStructural && visit.isLifted registry

def depth (registry : Registry) (visit : Visit) : Nat :=
  (visit.ready registry).stack.length

/-- The innermost frame around the line. -/
def frame? (registry : Registry) (visit : Visit) : Option Frame :=
  (visit.ready registry).stack.head?

def placement (registry : Registry) (visit : Visit) : Placement :=
  (visit.ready registry).place visit.input.line

/-- Text of a block scalar moves with the scalar's opener, a line that is lifted out goes to the
column of the key of its frame, and any other line without a part in the structure stays. -/
def column (registry : Registry) (visit : Visit) : Nat :=
  let line := visit.input.line
  if visit.isText then
    if line.category = .blank then line.indent
    else (line.indent + (visit.state.body.map ScalarBody.shift).getD 0).toNat
  else if !line.isStructural then line.indent
  else if visit.isLifted registry then ((visit.frame? registry).map Frame.baseIndent).getD 0
  else (visit.placement registry).indent line

/-- The line of the output that comes of the line. -/
def out (registry : Registry) (visit : Visit) : OutLine :=
  { body := Text.spaces (visit.column registry) ++ visit.input.line.content
    ending := visit.input.ending
    number := visit.input.number
    moved := visit.isRelocated registry
    trivia := !visit.isText && visit.input.line.isTrivia }

/-- What a step makes of the line. The log may grow first. -/
inductive Outcome (registry : Registry) (visit : Visit) : Except Failure State → Prop where
  | text {body : ScalarBody} : visit.isText = true → visit.state.body = some body →
      Outcome registry visit (.ok (visit.state.writeBody visit.input body.shift))
  | loose : visit.isText = false → visit.input.line.isStructural = false →
      Outcome registry visit (.ok ({ visit.state with body := none }.passThrough visit.input))
  | relocated {frame : Frame} {rest : Stack} {key : Text} {events : List Event} :
      visit.isRelocated registry = true → (visit.ready registry).stack = frame :: rest →
      Outcome registry visit
        (.ok (((visit.ready registry).withEvents events).liftOut visit.input key))
  | placed {events : List Event} : visit.isPlaced registry = true →
      Outcome registry visit
        (((visit.ready registry).withEvents events).settle registry visit.input
          (InputLine.nextStructural? visit.rest))

variable {registry : Registry} {visit : Visit}

@[simp] theorem out_moved (registry : Registry) (visit : Visit) :
    (visit.out registry).moved = visit.isRelocated registry := rfl

@[simp] theorem out_number (registry : Registry) (visit : Visit) :
    (visit.out registry).number = visit.input.number := rfl

theorem isStructural_iff :
    visit.isStructural = true ↔ visit.isText = false ∧ visit.input.line.isStructural = true := by
  simp [isStructural]

theorem isPlaced_iff :
    visit.isPlaced registry = true ↔
      visit.isStructural = true ∧ visit.isLifted registry = false := by
  simp [isPlaced]

theorem isRelocated_iff :
    visit.isRelocated registry = true ↔
      visit.isStructural = true ∧ visit.isLifted registry = true := by
  simp [isRelocated]

/-- What is lifted out: an attribute with its value on the line, in a frame that cannot own it. -/
theorem stranded_of_verdict {state : State} {line : Line} {ahead : Option Line} {key : Text}
    {frame : Frame} (h : state.verdict registry line ahead = .stranded key frame) :
    state.stack.head? = some frame ∧ line.key = some key ∧ line.isInlinePair = true ∧
      registry.isStranded key frame.role frame.key = true := by
  simp only [State.verdict] at h
  split at h
  · rename_i hkey hstack
    split at h
    · rename_i hstranded
      split at h
      · cases h
      · cases h
        simp only [Bool.and_eq_true] at hstranded
        exact ⟨by rw [hstack, List.head?_cons], hkey, hstranded.1⟩
    · cases h
  · cases h

theorem exists_stranded (h : visit.isRelocated registry = true) :
    ∃ key frame, visit.frame? registry = some frame ∧ visit.input.line.key = some key ∧
      visit.input.line.isInlinePair = true ∧
      registry.isStranded key frame.role frame.key = true := by
  have hlifted := (isRelocated_iff.1 h).2
  simp only [isLifted] at hlifted
  split at hlifted
  · rename_i hverdict
    exact ⟨_, _, stranded_of_verdict hverdict⟩
  · cases hlifted
  · cases hlifted

theorem outcome_structural (hstructural : visit.isStructural = true) :
    Outcome registry visit
      ({ visit.state with body := none }.structural registry visit.input
        (InputLine.nextStructural? visit.rest)) := by
  have hready : visit.ready registry =
      { visit.state with body := none }.closeFor registry visit.input.line := rfl
  have hplaced : visit.isLifted registry = false → visit.isPlaced registry = true :=
    fun hlifted => isPlaced_iff.2 ⟨hstructural, hlifted⟩
  simp only [State.structural, ← hready]
  split
  · rename_i hverdict
    exact @Outcome.placed registry visit (visit.ready registry).events
      (hplaced (by simp only [isLifted, hverdict]))
  · rename_i hverdict
    exact .placed (hplaced (by simp only [isLifted, hverdict]))
  · rename_i key frame hverdict
    obtain ⟨rest, hstack⟩ := List.head?_eq_some_iff.1 (stranded_of_verdict hverdict).1
    refine .relocated (isRelocated_iff.2 ⟨hstructural, ?_⟩) hstack
    simp only [isLifted, hverdict]

theorem outcome_step (registry : Registry) (visit : Visit) :
    Outcome registry visit (visit.state.step registry visit.input visit.rest) := by
  rw [State.step]
  split
  · rename_i body hbody
    obtain ⟨hsome, hcontinues⟩ := Option.filter_eq_some_iff.1 hbody
    refine .text ?_ hsome
    rw [isText, hsome]
    exact hcontinues
  · rename_i hbody
    have htext : visit.isText = false := by
      rw [isText]
      cases hopened : visit.state.body with
      | none => rfl
      | some body => simpa [hopened] using hbody
    split
    · rename_i hline
      exact outcome_structural (isStructural_iff.2 ⟨htext, hline⟩)
    · rename_i hline
      exact .loose htext (Bool.eq_false_iff.2 hline)

/-- A line that is placed is settled, whether or not its task sets the key already. -/
theorem step_of_isPlaced (hplaced : visit.isPlaced registry = true) :
    ∃ events, visit.state.step registry visit.input visit.rest =
      ((visit.ready registry).withEvents events).settle registry visit.input
        (InputLine.nextStructural? visit.rest) := by
  obtain ⟨hstructural, hlifted⟩ := isPlaced_iff.1 hplaced
  obtain ⟨htext, hline⟩ := isStructural_iff.1 hstructural
  have houtcome := outcome_step registry visit
  generalize visit.state.step registry visit.input visit.rest = result at houtcome
  cases houtcome with
  | text htext' _ =>
    rw [htext] at htext'
    cases htext'
  | loose _ hline' =>
    rw [hline] at hline'
    cases hline'
  | relocated hrelocated _ =>
    rw [(isRelocated_iff.1 hrelocated).2] at hlifted
    cases hlifted
  | placed _ => exact ⟨_, rfl⟩

end Visit
end Pass
end Reindent
