import Reindent.Proofs.Pass.Rearrangement
import Reindent.Proofs.Pass.Tandem
import Mathlib.Data.List.Forall2

/-!
# Reindent.Proofs.Pass.Alike

What a pass has written has no part in what it does next.

* `OutLine.Alike` — lines with one number, equal unless their document differs there.
* `State.Alike`   — states that are equal but for the output, in which the lines are alike.
* `Alike.closeFor`, `Alike.settle`, `Alike.finish` — a pass treats such states alike.
-/

namespace Reindent

/-- Two lines of the output with one number, which are equal unless they may differ there. -/
structure OutLine.Alike (differs : Nat → Prop) (out out' : OutLine) : Prop where
  number : out'.number = out.number
  trivia : out'.trivia = out.trivia
  same : out' = out ∨ differs out.number

theorem OutLine.Alike.refl {differs : Nat → Prop} (out : OutLine) : out.Alike differs out :=
  ⟨rfl, rfl, .inl rfl⟩

namespace Pass

variable {differs : Nat → Prop}

/-- The output is split at the same place in both. -/
theorem alike_split {written written' : List OutLine}
    (h : List.Forall₂ (OutLine.Alike differs) written written') :
    List.Forall₂ (OutLine.Alike differs) (written.takeWhile OutLine.trivia)
        (written'.takeWhile OutLine.trivia) ∧
      List.Forall₂ (OutLine.Alike differs) (written.dropWhile OutLine.trivia)
        (written'.dropWhile OutLine.trivia) := by
  induction h with
  | nil => exact ⟨.nil, .nil⟩
  | @cons out out' rest rest' hout hrest ih =>
    simp only [List.takeWhile_cons, List.dropWhile_cons, hout.trivia]
    split
    · exact ⟨.cons hout ih.1, ih.2⟩
    · exact ⟨.nil, .cons hout hrest⟩

namespace State

/-- Another output, and another number of lines counted in it. -/
def withOutput (state : State) (written : List OutLine) (reindented : Nat) : State :=
  { state with written, stats := { state.stats with reindented } }

/-- The states are equal but for the output, and that is alike. -/
def Alike (differs : Nat → Prop) (state state' : State) : Prop :=
  ∃ written reindented, state' = state.withOutput written reindented ∧
    List.Forall₂ (OutLine.Alike differs) state.written written

/-- A pass breaks off with the same failure, or goes on with states that are alike. -/
inductive AlikeResult (differs : Nat → Prop) :
    Except Failure State → Except Failure State → Prop
  | ok {state state' : State} : state.Alike differs state' →
      AlikeResult differs (.ok state) (.ok state')
  | error (failure : Failure) : AlikeResult differs (.error failure) (.error failure)

variable {state state' : State} {registry : Registry}

theorem verdict_congr (hstack : state'.stack = state.stack) (hroot : state'.root = state.root)
    (line : Line) (ahead : Option Line) :
    state'.verdict registry line ahead = state.verdict registry line ahead := by
  cases state
  cases state'
  cases hstack
  cases hroot
  rfl

namespace Alike

theorem refl (state : State) : state.Alike differs state :=
  ⟨state.written, state.stats.reindented, rfl,
    List.forall₂_same.2 fun out _ => OutLine.Alike.refl out⟩

/-- What neither reads nor writes the output. -/
theorem map (h : state.Alike differs state') {f : State → State}
    (hcommutes : ∀ written reindented,
      f (state.withOutput written reindented) = (f state).withOutput written reindented)
    (hwritten : (f state).written = state.written) : (f state).Alike differs (f state') := by
  obtain ⟨written, reindented, rfl, halike⟩ := h
  refine ⟨written, reindented, hcommutes written reindented, ?_⟩
  rw [hwritten]
  exact halike

/-- Two lines that are alike are written. -/
theorem write (h : state.Alike differs state') {input input' : InputLine} {text text' : Text}
    {trivia : Bool} (hnumber : input'.number = input.number)
    (hsame : input' = input ∧ text' = text ∨ differs input.number) :
    (state.write input text trivia).Alike differs (state'.write input' text' trivia) := by
  obtain ⟨written, reindented, rfl, halike⟩ := h
  refine ⟨_, reindented, rfl, .cons ⟨hnumber, rfl, ?_⟩ halike⟩
  rcases hsame with ⟨rfl, rfl⟩ | hdiffers
  · exact .inl rfl
  · exact .inr hdiffers

/-- What is counted is not compared. -/
theorem countReindented (h : state.Alike differs state') :
    state.countReindented.Alike differs state' := by
  obtain ⟨written, reindented, rfl, halike⟩ := h
  exact ⟨written, reindented, rfl, halike⟩

theorem countReindented' (h : state.Alike differs state') :
    state.Alike differs state'.countReindented := by
  obtain ⟨written, reindented, rfl, halike⟩ := h
  exact ⟨written, reindented + 1, rfl, halike⟩

theorem flush (h : state.Alike differs state') (waiting : List Relocation) :
    (state.flush waiting).Alike differs (state'.flush waiting) := by
  obtain ⟨written, reindented, rfl, halike⟩ := h
  obtain ⟨htrivia, hrest⟩ := alike_split halike
  have hmoved : List.Forall₂ (OutLine.Alike differs) (waiting.map moved).reverse
      (waiting.map moved).reverse :=
    List.forall₂_same.2 fun out _ => OutLine.Alike.refl out
  exact ⟨_, reindented, rfl, List.rel_append (List.rel_append htrivia hmoved) hrest⟩

theorem stack (h : state.Alike differs state') : state'.stack = state.stack := by
  obtain ⟨written, reindented, rfl, _⟩ := h
  rfl

theorem root (h : state.Alike differs state') : state'.root = state.root := by
  obtain ⟨written, reindented, rfl, _⟩ := h
  rfl

theorem orphans (h : state.Alike differs state') : state'.orphans = state.orphans := by
  obtain ⟨written, reindented, rfl, _⟩ := h
  rfl

theorem body (h : state.Alike differs state') : state'.body = state.body := by
  obtain ⟨written, reindented, rfl, _⟩ := h
  rfl

theorem fail {α : Type} (h : state.Alike differs state') (fault : Fault) :
    (state'.fail fault : Except Failure α) = state.fail fault := by
  obtain ⟨written, reindented, rfl, _⟩ := h
  rfl

theorem length_written (h : state.Alike differs state') :
    state'.written.length = state.written.length := by
  obtain ⟨written, reindented, rfl, halike⟩ := h
  exact halike.length_eq.symm

/-- Frames end in both. -/
theorem tandem : Tandem .same (Alike differs) where
  stack h := h.stack.trans (List.map_id _).symm
  root h := h.root
  orphans h := h.orphans.trans (List.map_id _).symm
  flush h waiting := by
    rw [show waiting.map Rendering.same.line = waiting from List.map_id _]
    exact h.flush waiting
  log h _ _ _ := h.map (f := fun state => state.log _) (fun _ _ => rfl) rfl
  update h stack root orphans := by
    rw [show stack.map Rendering.same.frame = stack from List.map_id _,
      show orphans.map Rendering.same.line = orphans from List.map_id _]
    exact h.map (f := fun state => { state with stack, root, orphans }) (fun _ _ => rfl) rfl

theorem flushEntry (h : state.Alike differs state') (entry : Option Entry) :
    (state.flushEntry entry).Alike differs (state'.flushEntry entry) :=
  tandem.flushEntry h (by simp only [Rendering.same, List.map_id])

theorem closeFor (h : state.Alike differs state') (line : Line) :
    (state.closeFor registry line).Alike differs (state'.closeFor registry line) :=
  tandem.closeFor h fun _ => rfl

theorem place (h : state.Alike differs state') (line : Line) :
    state'.place line = state.place line := by
  simp only [State.place, h.stack, h.root]

theorem record (h : state.Alike differs state') (line : Line) (placement : Placement) :
    (state.record line placement).Alike differs (state'.record line placement) := by
  have hscope : state'.scope = state.scope := by
    simp only [State.scope, h.stack, h.root]
  simp only [State.record, hscope]
  refine flushEntry (h.map (f := fun state => state.withScope _) ?_ ?_) _
  · intro written reindented
    cases hstack : state.stack <;> simp [withScope, withOutput, hstack]
  · simp only [withScope]
    split <;> rfl

theorem writeAt (h : state.Alike differs state') (input : InputLine) (indent : Nat) :
    (state.writeAt input indent).Alike differs (state'.writeAt input indent) := by
  simp only [State.writeAt]
  split
  · exact h.write rfl (.inl ⟨rfl, rfl⟩)
  · exact h.countReindented.countReindented'.write rfl (.inl ⟨rfl, rfl⟩)

theorem passThrough (h : state.Alike differs state') (input : InputLine) :
    (state.passThrough input).Alike differs (state'.passThrough input) := by
  have hwrites : ∀ {state state' : State}, state.Alike differs state' →
      (state.writeVerbatim input).Alike differs (state'.writeVerbatim input) :=
    fun h => h.write rfl (.inl ⟨rfl, rfl⟩)
  simp only [State.passThrough]
  split
  · refine hwrites ?_
    obtain ⟨written, reindented, rfl, halike⟩ := h
    exact ⟨written, reindented, rfl, halike⟩
  · exact hwrites h

theorem liftOut (h : state.Alike differs state') (input : InputLine) (key : Text) :
    (state.liftOut input key).Alike differs (state'.liftOut input key) := by
  refine h.map (f := fun state => state.liftOut input key) ?_ ?_
  · intro written reindented
    cases hstack : state.stack <;> simp [State.liftOut, withOutput, hstack]
  · simp only [State.liftOut]
    split <;> rfl

theorem settled (h : state.Alike differs state') (input : InputLine) :
    (state.settled input).Alike differs (state'.settled input) := by
  simp only [State.settled, h.place]
  have hwritten := (h.record input.line (state.place input.line)).writeAt input
    ((state.place input.line).indent input.line)
  exact hwritten.map (f := fun written => { written with body := _ }) (fun _ _ => rfl) rfl

theorem openFrame (h : state.Alike differs state') (frame : Frame) :
    AlikeResult differs (state.openFrame frame) (state'.openFrame frame) := by
  obtain ⟨written, reindented, rfl, halike⟩ := h
  have hlog : (state.withOutput written reindented).stack.push frame = state.stack.push frame := rfl
  simp only [State.openFrame, log]
  split
  · rename_i stack hpush
    rw [show (state.withOutput written reindented).stack.push frame = .ok stack from hpush]
    exact .ok ⟨written, reindented, rfl, halike⟩
  · rename_i fault hpush
    rw [show (state.withOutput written reindented).stack.push frame = .error fault from hpush]
    exact .error _

theorem settle (h : state.Alike differs state') (input : InputLine) (ahead : Option Line) :
    AlikeResult differs (state.settle registry input ahead)
      (state'.settle registry input ahead) := by
  have hrecorded := h.record input.line (state.place input.line)
  rw [settle_eq, settle_eq, h.place, opening?_congr hrecorded.stack hrecorded.root]
  split
  · exact (h.settled input).openFrame _
  · exact .ok (h.settled input)

theorem structural (h : state.Alike differs state') (input : InputLine) (ahead : Option Line) :
    AlikeResult differs (state.structural registry input ahead)
      (state'.structural registry input ahead) := by
  have hclosed : (state.closeFor registry input.line).Alike differs
      (state'.closeFor registry input.line) := h.closeFor input.line
  have hverdict := @verdict_congr _ _ registry hclosed.stack hclosed.root input.line ahead
  have hlogged : ∀ event, ((state.closeFor registry input.line).log event).Alike differs
      ((state'.closeFor registry input.line).log event) :=
    fun event => hclosed.map (f := fun state => state.log event) (fun _ _ => rfl) rfl
  simp only [State.structural, hverdict]
  split
  · exact hclosed.settle input ahead
  · exact (hlogged _).settle input ahead
  · exact .ok ((hlogged _).liftOut input _)

end Alike
end State

variable {state state' : State}

theorem State.Alike.unwind (h : state.Alike differs state') :
    (unwind state).Alike differs (unwind state') :=
  State.Alike.tandem.unwind h

/-- The checks at the end of a document do not read the lines of the output. -/
theorem State.Alike.finish (h : state.Alike differs state') :
    State.AlikeResult differs (finish state) (Pass.finish state') := by
  have hunwound := h.unwind
  have hcounters : (Pass.unwind state').counters = (Pass.unwind state).counters := by
    obtain ⟨written, reindented, hsame, _⟩ := hunwound
    rw [hsame]
    rfl
  simp only [State.counters, Prod.mk.injEq] at hcounters
  simp only [Pass.finish, hunwound.stack, hcounters, hunwound.fail]
  split
  · exact .error _
  · split
    · exact .error _
    · exact .ok hunwound

end Pass
end Reindent
