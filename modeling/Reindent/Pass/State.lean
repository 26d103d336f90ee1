import Reindent.Frame.Stack
import Reindent.Placement
import Reindent.Event

/-!
# Reindent.Pass.State

What a pass over a document knows after some of its lines.

* `Stats`          — the counters of a document.
* `InputLine`      — a line of the input.
* `OutLine`        — a line of the output, and where it comes from.
* `State`          — the open frames, the waiting relocations and the output so far.
* `State.flush`    — writes waiting relocations.
* `State.closeTop` — ends the innermost frame.
* `State.closeUpTo_keeps`, `State.closeAtEnd_keeps` — what that keeps, ending more frames keeps.

The output and the log are kept newest first.
-/

namespace Reindent

structure Stats where
  /-- Lines whose indentation changed. -/
  reindented : Nat := 0
  /-- Attributes moved out of a frame that could not own them. -/
  relocated : Nat := 0
  /-- The numbers, from 1, of the lines that have a tab in their indentation. -/
  malformed : List Nat := []
  /-- A document start marker was added. -/
  documentStart : Bool := false
  deriving DecidableEq, Repr

/-- A line of the input, read, with its terminator. -/
structure InputLine where
  /-- The number of the line, from 1. -/
  number : Nat
  line : Line
  ending : Ending
  deriving DecidableEq, Repr

namespace InputLine

/-- The lines of a document, the first of which gets the given number. -/
def ofLines : Nat → List RawLine → List InputLine
  | _, [] => []
  | number, raw :: rest => ⟨number, Line.ofText raw.body, raw.ending⟩ :: ofLines (number + 1) rest

/-- The first structural line. -/
def nextStructural? (lines : List InputLine) : Option Line :=
  (lines.find? (·.line.isStructural)).map InputLine.line

theorem nextStructural?_cons {input : InputLine} (h : input.line.isStructural = true)
    (rest : List InputLine) : nextStructural? (input :: rest) = some input.line := by
  rw [nextStructural?, List.find?_cons, h, Option.map_some]

theorem nextStructural?_of_loose {input : InputLine} (h : input.line.isStructural = false)
    (rest : List InputLine) : nextStructural? (input :: rest) = nextStructural? rest := by
  rw [nextStructural?, nextStructural?, List.find?_cons, h]

end InputLine

structure OutLine extends RawLine where
  /-- The number of the line in the input; 0 for a line that was added. -/
  number : Nat
  /-- The line was lifted out of a frame. -/
  moved : Bool := false
  /-- A blank line or a comment. Relocated lines are written above a run of these. -/
  trivia : Bool
  deriving DecidableEq, Repr

/-- The text of a block scalar: its opener's input column, and how far the opener moved. -/
structure ScalarBody where
  opener : Nat
  shift : Int
  deriving DecidableEq, Repr

namespace Pass

structure State where
  stack : Stack := []
  /-- The children of the document itself. -/
  root : Scope := {}
  /-- Relocations with no item around them. They belong to the document's own mapping and are
  written at its end. -/
  orphans : List Relocation := []
  /-- The output, newest line first. -/
  written : List OutLine := []
  stats : Stats := {}
  /-- How many lines were lifted out. -/
  buffered : Nat := 0
  /-- How many of those have been written. -/
  emitted : Nat := 0
  /-- The block scalar whose text the next line may continue. -/
  body : Option ScalarBody := none
  /-- The log, newest event first. -/
  events : List Event := []
  deriving DecidableEq, Repr

/-- A pass that broke off, with the log up to there. -/
structure Failure where
  fault : Fault
  events : List Event
  deriving DecidableEq, Repr

namespace State

def log (state : State) (event : Event) : State :=
  { state with events := event :: state.events }

def fail {α : Type} (state : State) (fault : Fault) : Except Failure α :=
  .error ⟨fault, state.events.reverse⟩

/-- The children of the innermost context. -/
def scope (state : State) : Scope :=
  match state.stack with
  | frame :: _ => frame.scope
  | [] => state.root

def withScope (state : State) (scope : Scope) : State :=
  match state.stack with
  | frame :: rest => { state with stack := { frame with scope } :: rest }
  | [] => { state with root := scope }

/-- The place of `line` in the innermost context. -/
def place (state : State) (line : Line) : Placement :=
  match state.stack with
  | frame :: _ => Reindent.place frame line
  | [] => placeAtRoot state.root line

/-- The item that lines lifted out of the innermost frame will belong to. -/
def owner? (state : State) : Option Entry :=
  state.stack.ownerItem?.or state.root.item?

/-! ### Output -/

/-- Writes `text` in the place of a line of the input. -/
def write (state : State) (input : InputLine) (text : Text) (trivia : Bool) : State :=
  let line : OutLine := { body := text, ending := input.ending, number := input.number, trivia }
  { state with written := line :: state.written }

def countReindented (state : State) : State :=
  { state with stats := { state.stats with reindented := state.stats.reindented + 1 } }

/-- Writes a structural line at the column `indent`. -/
def writeAt (state : State) (input : InputLine) (indent : Nat) : State :=
  let line := input.line
  if indent = line.indent then state.write input line.text false
  else state.countReindented.write input (Text.spaces indent ++ line.content) false

def writeVerbatim (state : State) (input : InputLine) : State :=
  state.write input input.line.text input.line.isTrivia

/-- Writes a line of a block scalar, which moves with the scalar's opener. -/
def writeBody (state : State) (input : InputLine) (shift : Int) : State :=
  let line := input.line
  if shift = 0 ∨ line.category = .blank then state.write input line.text false
  else
    state.countReindented.write input
      (Text.spaces (line.indent + shift).toNat ++ line.content) false

/-! ### Relocations -/

def moved (r : Relocation) : OutLine :=
  { body := r.render, ending := r.ending, number := r.lineNumber, moved := true, trivia := false }

/-- Writes the waiting relocations above the blank lines and comments at the end of the output. -/
def flush (state : State) (waiting : List Relocation) : State :=
  { state with
    written :=
      state.written.takeWhile OutLine.trivia ++ (waiting.map moved).reverse ++
        state.written.dropWhile OutLine.trivia
    emitted := state.emitted + waiting.length
    events :=
      (waiting.map fun r => Event.moved r.lineNumber r.key r.origin r.indent).reverse ++
        state.events }

/-- Writes what waits for the end of an item. -/
def flushEntry (state : State) (entry : Option Entry) : State :=
  match entry with
  | some entry => state.flush entry.pending
  | none => state

/-- Hands the relocations of a frame that has ended to the item that they belong to, or to the
document if there is none. -/
def handOver (state : State) (waiting : List Relocation) : State :=
  match state.stack.handInnermost? waiting with
  | some stack => { state with stack }
  | none =>
    if state.root.item?.isSome then { state with root := state.root.append waiting }
    else { state with orphans := state.orphans ++ waiting }

/-- Disposes of the relocations of `frame`, which has just ended. At the end of the document they
are written at once. -/
def release (state : State) (atEnd : Bool) (frame : Frame) : State :=
  if frame.relocations.isEmpty then state
  else if atEnd then
    (state.log (.openAtEnd frame.key frame.relocations.length frame.baseIndent)).flush
      frame.relocations
  else state.handOver frame.relocations

/-- Ends the innermost frame, and with it the item that was its last child. -/
def closeTop (state : State) (atEnd : Bool) : State :=
  match state.stack with
  | [] => state
  | frame :: rest =>
    ({ state with stack := rest }.flushEntry frame.scope.entry).release atEnd frame

/-- Ends up to `count` frames, innermost first, while `line` ends them. -/
def closeUpTo (registry : Registry) (line : Line) : Nat → State → State
  | 0, state => state
  | count + 1, state =>
    match state.stack with
    | [] => state
    | frame :: _ =>
      if frame.closesAt registry line then closeUpTo registry line count (state.closeTop false)
      else state

/-- Ends the frames that `line` ends. -/
def closeFor (state : State) (registry : Registry) (line : Line) : State :=
  closeUpTo registry line state.stack.length state

/-- Ends `count` frames at the end of the document. -/
def closeAtEnd : Nat → State → State
  | 0, state => state
  | count + 1, state => closeAtEnd count (state.closeTop true)

@[simp] theorem flush_nil (state : State) : state.flush [] = state := by
  simp [flush, List.takeWhile_append_dropWhile]

@[simp] theorem flush_stack (state : State) (waiting : List Relocation) :
    (state.flush waiting).stack = state.stack := rfl

@[simp] theorem flushEntry_stack (state : State) (entry : Option Entry) :
    (state.flushEntry entry).stack = state.stack := by
  cases entry <;> rfl

theorem handOver_stack_length (state : State) (waiting : List Relocation) :
    (state.handOver waiting).stack.length = state.stack.length := by
  simp only [handOver]
  split
  · exact Stack.handInnermost?_length ‹_›
  · split <;> rfl

theorem release_stack_length (state : State) (atEnd : Bool) (frame : Frame) :
    (state.release atEnd frame).stack.length = state.stack.length := by
  simp only [release]
  split
  · rfl
  · split
    · rfl
    · exact handOver_stack_length _ _

/-- Ending a frame leaves one frame less. -/
theorem closeTop_stack_length (state : State) (atEnd : Bool) :
    (state.closeTop atEnd).stack.length = state.stack.length - 1 := by
  cases hstack : state.stack with
  | nil => simp [closeTop, hstack]
  | cons frame rest => simp [closeTop, hstack, release_stack_length]

theorem closeTop_of_nil {state : State} (h : state.stack = []) (atEnd : Bool) :
    state.closeTop atEnd = state := by
  rw [closeTop, h]

theorem closeUpTo_succ (registry : Registry) (line : Line) (count : Nat) (state : State) :
    closeUpTo registry line (count + 1) state =
      if state.stack.head?.any (·.closesAt registry line) then
        closeUpTo registry line count (state.closeTop false)
      else state := by
  rw [closeUpTo]
  cases state.stack <;> rfl

/-! ### What ending a frame keeps -/

section Keeps

variable {P : State → Prop} {state : State}

theorem closeUpTo_keeps (hclose : ∀ state, P state → P (state.closeTop false))
    (registry : Registry) (line : Line) (count : Nat) (h : P state) :
    P (closeUpTo registry line count state) := by
  induction count generalizing state with
  | zero => exact h
  | succ count ih =>
    rw [closeUpTo_succ]
    split
    · exact ih (hclose state h)
    · exact h

theorem closeFor_keeps (hclose : ∀ state, P state → P (state.closeTop false))
    (registry : Registry) (line : Line) (h : P state) : P (state.closeFor registry line) :=
  closeUpTo_keeps hclose registry line _ h

theorem closeAtEnd_keeps (hclose : ∀ state, P state → P (state.closeTop true)) (count : Nat)
    (h : P state) : P (closeAtEnd count state) := by
  induction count generalizing state with
  | zero => exact h
  | succ count ih => exact ih (hclose state h)

/-- In two passes whose lines end the same innermost frames, the frames end together. -/
theorem closeUpTo_keeps_both {R : State → State → Prop} {registry : Registry} {line line' : Line}
    (hends : ∀ state state', R state state' →
      state'.stack.head?.any (·.closesAt registry line') =
        state.stack.head?.any (·.closesAt registry line))
    (hclose : ∀ state state', R state state' → R (state.closeTop false) (state'.closeTop false))
    (count : Nat) {state' : State} (h : R state state') :
    R (closeUpTo registry line count state) (closeUpTo registry line' count state') := by
  induction count generalizing state state' with
  | zero => exact h
  | succ count ih =>
    rw [closeUpTo_succ, closeUpTo_succ, hends state state' h]
    split
    · exact ih (hclose state state' h)
    · exact h

end Keeps

end State

end Pass

end Reindent
