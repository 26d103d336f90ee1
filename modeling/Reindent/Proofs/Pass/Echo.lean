import Reindent.Proofs.Frame.Waiting
import Reindent.Proofs.Pass.BlockText

/-!
# Reindent.Proofs.Pass.Echo

Two passes over documents that only differ in lines that are not looked at.

* `State.shown`    — the lines of the output that are looked at.
* `State.Echo`     — the states of the two passes: the same but for the numbers of the lines, and
  for what is not looked at.
* `State.step_of_loose` — a line without a part in the structure.
* `Echo.tandem`    — frames end in both passes.
* `Echo.skip`, `Echo.skip'` — a line that is not looked at may be written in one of the passes only.
* `Echo.step`      — a line of both documents outside block scalars.
* `stepsAbove_echo`, `Echo.unwind` — lines of both documents, and their end.

The logs and the counters are not compared. Nor is the block scalar that is open, so that each
step says what it needs of it.
-/

namespace Reindent

def Relocation.relabel (label : Nat → Nat) (r : Relocation) : Relocation :=
  { r with lineNumber := label r.lineNumber }

def InputLine.relabel (label : Nat → Nat) (input : InputLine) : InputLine :=
  { input with number := label input.number }

def OutLine.relabel (label : Nat → Nat) (out : OutLine) : OutLine :=
  { out with number := label out.number }

theorem InputLine.nextStructural?_relabel (label : Nat → Nat) (lines : List InputLine) :
    nextStructural? (lines.map (relabel label)) = nextStructural? lines := by
  rw [nextStructural?, nextStructural?, List.find?_map, Option.map_map]
  rfl

namespace Pass
namespace State

variable {label : Nat → Nat} {kept : Nat → Bool} {registry : Registry} {state state' : State}

theorem moved_relabel (label : Nat → Nat) (waiting : List Relocation) :
    (waiting.map (Relocation.relabel label)).map moved =
      (waiting.map moved).map (OutLine.relabel label) := by
  rw [List.map_map, List.map_map]
  rfl

/-! ### The lines that are looked at -/

/-- The lines of the output with the numbers that are kept, newest first. -/
def shown (kept : Nat → Bool) (state : State) : List OutLine :=
  state.written.filter fun out => kept out.number

/-- Blank lines and comments, which move when relocations are written above them, are not kept. -/
def Quiet (kept : Nat → Bool) (state : State) : Prop :=
  ∀ out ∈ state.written, out.trivia = true → kept out.number = false

theorem shown_flush (h : state.Quiet kept) (waiting : List Relocation) :
    (state.flush waiting).shown kept =
      ((waiting.map moved).reverse.filter fun out => kept out.number) ++ state.shown kept := by
  have htrivia : (state.written.takeWhile OutLine.trivia).filter (fun out => kept out.number) =
      [] := by
    refine List.filter_eq_nil_iff.2 fun out hout => ?_
    rw [h out ((List.takeWhile_sublist _).subset hout) (List.mem_takeWhile_imp hout)]
    exact Bool.false_ne_true
  have hsplit := congrArg (List.filter fun out => kept out.number)
    (List.takeWhile_append_dropWhile (p := OutLine.trivia) (l := state.written))
  rw [List.filter_append, htrivia, List.nil_append] at hsplit
  simp only [shown, flush, List.filter_append, htrivia, hsplit, List.nil_append]

theorem Quiet.flush (h : state.Quiet kept) (waiting : List Relocation) :
    (state.flush waiting).Quiet kept := by
  intro out hout htrivia
  rcases List.mem_append.1 hout with hout | hout
  · rcases List.mem_append.1 hout with hout | hout
    · exact h out ((List.takeWhile_sublist _).subset hout) htrivia
    · obtain ⟨r, _, rfl⟩ := List.mem_map.1 (List.mem_reverse.1 hout)
      cases htrivia
  · exact h out ((List.dropWhile_sublist _).subset hout) htrivia

theorem Quiet.write (h : state.Quiet kept) {input : InputLine} {text : Text} {trivia : Bool}
    (hquiet : trivia = true → kept input.number = false) :
    (state.write input text trivia).Quiet kept := by
  intro out hout htrivia
  rcases List.mem_cons.1 hout with rfl | hout
  · exact hquiet htrivia
  · exact h out hout htrivia

theorem shown_write (state : State) (input : InputLine) (text : Text) (trivia : Bool) :
    (state.write input text trivia).shown kept =
      if kept input.number then
        { body := text, ending := input.ending, number := input.number, trivia } :: state.shown kept
      else state.shown kept := by
  rw [shown, write, List.filter_cons]
  rfl

/-- A line with the number `n` is written, and nothing else happens but to the log and the
counters. -/
structure Adds (n : Nat) (state next : State) : Prop where
  stack : next.stack = state.stack
  root : next.root = state.root
  orphans : next.orphans = state.orphans
  written : ∃ out, out.number = n ∧ next.written = out :: state.written

namespace Adds

variable {n : Nat} {next : State}

theorem shown (h : state.Adds n next) (hskip : kept n = false) :
    next.shown kept = state.shown kept := by
  obtain ⟨out, rfl, hwritten⟩ := h.written
  rw [State.shown, hwritten, List.filter_cons, hskip, if_neg Bool.false_ne_true]
  rfl

theorem quiet (h : state.Adds n next) (hskip : kept n = false) (hquiet : state.Quiet kept) :
    next.Quiet kept := by
  obtain ⟨out, rfl, hwritten⟩ := h.written
  intro line hline htrivia
  rw [hwritten] at hline
  rcases List.mem_cons.1 hline with rfl | hline
  · exact hskip
  · exact hquiet line hline htrivia

end Adds

theorem adds_writeBody (state : State) (input : InputLine) (shift : Int) :
    state.Adds input.number (state.writeBody input shift) := by
  simp only [writeBody]
  split <;> exact ⟨rfl, rfl, rfl, _, rfl, rfl⟩

theorem adds_passThrough (state : State) (input : InputLine) :
    state.Adds input.number (state.passThrough input) := by
  simp only [passThrough]
  split <;> exact ⟨rfl, rfl, rfl, _, rfl, rfl⟩

/-- A line without a part in the structure is written, and may end a block scalar. -/
theorem step_of_loose (registry : Registry) (state : State) (input : InputLine)
    (hloose : input.line.isStructural = false) (rest : List InputLine) :
    ∃ next, state.step registry input rest = .ok next ∧ state.Adds input.number next ∧
      next.body = state.body.filter (continuesBody input.line) := by
  rw [step, hloose]
  cases hbody : state.body.filter (continuesBody input.line) with
  | some body =>
    refine ⟨_, rfl, adds_writeBody state input body.shift, ?_⟩
    rw [body_writeBody, (Option.filter_eq_some_iff.1 hbody).1]
  | none =>
    have hadds := adds_passThrough { state with body := none } input
    exact ⟨_, rfl, { hadds with }, body_passThrough _ _⟩

/-! ### The states of the two passes -/

/-- `state'` is the state of a pass over a document where the line `n` of the other document is the
line `label n`. Of the output, the lines that are kept are the same and stand in the same order. -/
structure Echo (label : Nat → Nat) (kept : Nat → Bool) (state state' : State) : Prop
    extends state.Mirrors (Relocation.relabel label) state' where
  orphans : state'.orphans = state.orphans.map (Relocation.relabel label)
  shown : state'.shown kept = (state.shown (kept ∘ label)).map (OutLine.relabel label)
  quiet : state.Quiet (kept ∘ label)
  quiet' : state'.Quiet kept

/-- The passes break off with the same fault, or go on with the same block scalar open. -/
inductive EchoResult (label : Nat → Nat) (kept : Nat → Bool) :
    Except Failure State → Except Failure State → Prop
  | ok {state state' : State} : state.Echo label kept state' → state'.body = state.body →
      EchoResult label kept (.ok state) (.ok state')
  | error {failure failure' : Failure} : failure'.fault = failure.fault →
      EchoResult label kept (.error failure) (.error failure')

namespace Echo

/-! ### Moves between the buffers -/

theorem flush (h : state.Echo label kept state') (waiting : List Relocation) :
    (state.flush waiting).Echo label kept
      (state'.flush (waiting.map (Relocation.relabel label))) := by
  refine { h with shown := ?_, quiet := h.quiet.flush waiting, quiet' := h.quiet'.flush _ }
  rw [shown_flush h.quiet', shown_flush h.quiet, h.shown, moved_relabel, ← List.map_reverse,
    List.filter_map, List.map_append]
  rfl

theorem log (h : state.Echo label kept state') (event event' : Event) :
    (state.log event).Echo label kept (state'.log event') :=
  { h with stack := h.stack }

/-- Frames end in both passes. -/
theorem tandem : Tandem (.waiting (Relocation.relabel label)) (Echo label kept) where
  stack h := h.stack
  root h := h.root
  orphans h := h.orphans
  flush h waiting := h.flush waiting
  log h _ _ _ := h.log _ _
  update h _ _ _ := { h with stack := rfl, root := rfl, orphans := rfl }

theorem closeFor (h : state.Echo label kept state') (line : Line) :
    (state.closeFor registry line).Echo label kept (state'.closeFor registry line) :=
  tandem.closeFor h fun _ => rfl

/-! ### Writing -/

/-- A line of both documents is written. -/
theorem write (h : state.Echo label kept state') (input : InputLine) (text : Text)
    {trivia : Bool} (hquiet : trivia = true → kept (label input.number) = false) :
    (state.write input text trivia).Echo label kept
      (state'.write (input.relabel label) text trivia) := by
  refine { h with shown := ?_, quiet := h.quiet.write hquiet, quiet' := h.quiet'.write hquiet }
  rw [shown_write, shown_write, h.shown]
  have hkept : (kept ∘ label) input.number = kept (input.relabel label).number := rfl
  rw [hkept]
  split <;> rfl

/-- A line that is not kept is written in the first pass only. -/
theorem skip (h : state.Echo label kept state') {n : Nat} {next : State}
    (hadds : state.Adds n next) (hskip : kept (label n) = false) :
    next.Echo label kept state' :=
  { stack := by rw [hadds.stack, h.stack]
    root := by rw [hadds.root, h.root]
    orphans := by rw [hadds.orphans, h.orphans]
    shown := by rw [hadds.shown hskip, h.shown]
    quiet := hadds.quiet hskip h.quiet
    quiet' := h.quiet' }

/-- A line that is not kept is written in the second pass only. -/
theorem skip' (h : state.Echo label kept state') {n : Nat} {next' : State}
    (hadds : state'.Adds n next') (hskip : kept n = false) : state.Echo label kept next' :=
  { stack := hadds.stack.trans h.stack
    root := hadds.root.trans h.root
    orphans := hadds.orphans.trans h.orphans
    shown := (hadds.shown hskip).trans h.shown
    quiet := h.quiet
    quiet' := hadds.quiet hskip h.quiet' }

theorem countReindented (h : state.Echo label kept state') :
    state.countReindented.Echo label kept state'.countReindented :=
  { h with stack := h.stack }

theorem writeAt (h : state.Echo label kept state') (input : InputLine) (indent : Nat) :
    (state.writeAt input indent).Echo label kept
      (state'.writeAt (input.relabel label) indent) := by
  have hline : (input.relabel label).line = input.line := rfl
  simp only [State.writeAt, hline]
  split
  · exact h.write input _ Bool.noConfusion
  · exact h.countReindented.write input _ Bool.noConfusion

theorem writeBody (h : state.Echo label kept state') (input : InputLine) (shift : Int) :
    (state.writeBody input shift).Echo label kept
      (state'.writeBody (input.relabel label) shift) := by
  have hline : (input.relabel label).line = input.line := rfl
  simp only [State.writeBody, hline]
  split
  · exact h.write input _ Bool.noConfusion
  · exact h.countReindented.write input _ Bool.noConfusion

theorem passThrough (h : state.Echo label kept state') {input : InputLine}
    (hquiet : input.line.isTrivia = true → kept (label input.number) = false) :
    (state.passThrough input).Echo label kept (state'.passThrough (input.relabel label)) := by
  have hline : (input.relabel label).line = input.line := rfl
  simp only [State.passThrough, State.writeVerbatim, hline]
  refine write ?_ input _ hquiet
  split
  · exact { h with stack := h.stack }
  · exact h

/-! ### Structural lines -/

theorem withScope (h : state.Echo label kept state') (scope : Scope) :
    (state.withScope scope).Echo label kept
      (state'.withScope (scope.mapWaiting (Relocation.relabel label))) := by
  cases hstack : state.stack with
  | nil =>
    have hstack' : state'.stack = [] := by rw [h.stack, hstack, List.map_nil]
    simp only [State.withScope, hstack, hstack']
    exact { h with stack := rfl, root := rfl }
  | cons frame rest =>
    have hstack' := h.stack
    rw [hstack, List.map_cons] at hstack'
    simp only [State.withScope, hstack, hstack']
    exact { h with stack := rfl }

theorem record (h : state.Echo label kept state') (line : Line) (placement : Placement) :
    (state.record line placement).Echo label kept (state'.record line placement) := by
  simp only [State.record, h.scope, Scope.record_mapWaiting]
  exact tandem.flushEntry (h.withScope _) (Option.map_map _ _ _)

theorem liftOut (h : state.Echo label kept state') (input : InputLine) (key : Text) :
    (state.liftOut input key).Echo label kept
      (state'.liftOut (input.relabel label) key) := by
  cases hstack : state.stack with
  | nil =>
    have hstack' : state'.stack = [] := by rw [h.stack, hstack, List.map_nil]
    simp only [State.liftOut, hstack, hstack']
    exact h
  | cons frame rest =>
    have hstack' := h.stack
    rw [hstack, List.map_cons] at hstack'
    simp only [State.liftOut, hstack, hstack']
    refine { h with stack := ?_ }
    simp only [List.map_cons, Frame.mapWaiting, List.map_append, List.map_nil]
    rfl

theorem settled (h : state.Echo label kept state') (input : InputLine) :
    (state.settled input).Echo label kept (state'.settled (input.relabel label)) := by
  have hline : (input.relabel label).line = input.line := rfl
  have hwritten := (h.record input.line (state.place input.line)).writeAt input
    ((state.place input.line).indent input.line)
  simp only [State.settled, hline, h.place]
  exact { hwritten with stack := hwritten.stack }

theorem body_settled (h : state.Echo label kept state') (input : InputLine) :
    (state'.settled (input.relabel label)).body = (state.settled input).body := by
  have hline : (input.relabel label).line = input.line := rfl
  simp only [State.settled, hline, h.place]

theorem openFrame (h : state.Echo label kept state') (hbody : state'.body = state.body)
    {frame : Frame} (hfresh : frame.waiting = []) :
    EchoResult label kept (state.openFrame frame) (state'.openFrame frame) := by
  have hpush : state'.stack.push frame = (state.stack.push frame).map
      (List.map (Frame.mapWaiting (Relocation.relabel label))) := by
    have hframe := Frame.mapWaiting_of_waiting (Relocation.relabel label) hfresh
    rw [h.stack]
    cases state.stack with
    | nil => simp only [Stack.push, List.map_nil, Except.map, List.map_cons, hframe]
    | cons top rest =>
      have hbase : (top.mapWaiting (Relocation.relabel label)).baseIndent = top.baseIndent := rfl
      have hkey : (top.mapWaiting (Relocation.relabel label)).key = top.key := rfl
      simp only [Stack.push, List.map_cons, hbase, hkey]
      split
      · rfl
      · simp only [Except.map, List.map_cons, hframe]
  simp only [State.openFrame, State.log, hpush]
  cases state.stack.push frame with
  | ok stack => exact .ok { h with stack := rfl } hbody
  | error fault => exact .error rfl

theorem settle (h : state.Echo label kept state') (input : InputLine) (ahead : Option Line) :
    EchoResult label kept (state.settle registry input ahead)
      (state'.settle registry (input.relabel label) ahead) := by
  have hline : (input.relabel label).line = input.line := rfl
  have hrecorded := h.record input.line (state.place input.line)
  have hbody := h.body_settled input
  rw [settle_eq, settle_eq, hline, h.place, hrecorded.opening?]
  split
  · rename_i frame hopening
    exact (h.settled input).openFrame hbody (waiting_opening? hopening)
  · exact .ok (h.settled input) hbody

theorem structural (h : state.Echo label kept state') (hbody : state'.body = state.body)
    (input : InputLine) (ahead : Option Line) :
    EchoResult label kept (state.structural registry input ahead)
      (state'.structural registry (input.relabel label) ahead) := by
  have hline : (input.relabel label).line = input.line := rfl
  have hclosed : (state.closeFor registry input.line).Echo label kept
      (state'.closeFor registry input.line) := h.closeFor input.line
  have hkey : ∀ r, (Relocation.relabel label r).key = r.key := fun _ => rfl
  simp only [State.structural, hline, hclosed.verdict hkey]
  cases (state.closeFor registry input.line).verdict registry input.line ahead with
  | stays => exact hclosed.settle input ahead
  | alreadySet key frame => exact (hclosed.log _ _).settle input ahead
  | stranded key frame =>
    refine .ok ((hclosed.log _ _).liftOut input key) ?_
    rw [body_liftOut, body_liftOut]
    exact (body_closeFor _ _).trans (hbody.trans (body_closeFor _ _).symm)

/-- A line of both documents that is text of a block scalar in neither. -/
theorem step (h : state.Echo label kept state') (registry : Registry) {input : InputLine}
    (hquiet : input.line.isTrivia = true → kept (label input.number) = false)
    {rest rest' : List InputLine}
    (hrest : InputLine.nextStructural? rest' = InputLine.nextStructural? rest)
    (htext : state.body.any (continuesBody input.line) = false)
    (htext' : state'.body.any (continuesBody input.line) = false) :
    EchoResult label kept (state.step registry input rest)
      (state'.step registry (input.relabel label) rest') := by
  have houtside : Echo label kept { state with body := none } { state' with body := none } :=
    { h with stack := h.stack }
  have hstep := @Visit.step_of_not_isText registry ⟨state, input, rest⟩ htext
  have hstep' := @Visit.step_of_not_isText registry ⟨state', input.relabel label, rest'⟩ htext'
  have hline : (input.relabel label).line = input.line := rfl
  rw [hstep, hstep', hline, hrest]
  split
  · exact houtside.structural rfl input _
  · refine .ok (houtside.passThrough hquiet) ?_
    rw [body_passThrough, body_passThrough]

/-- A line of both documents, with the same block scalar above. -/
theorem step_of_body (h : state.Echo label kept state') (hbody : state'.body = state.body)
    (registry : Registry) {input : InputLine}
    (hquiet : input.line.isTrivia = true → kept (label input.number) = false)
    {rest rest' : List InputLine}
    (hrest : InputLine.nextStructural? rest' = InputLine.nextStructural? rest) :
    EchoResult label kept (state.step registry input rest)
      (state'.step registry (input.relabel label) rest') := by
  cases htext : state.body.any (continuesBody input.line) with
  | false => exact h.step registry hquiet hrest htext (hbody ▸ htext)
  | true =>
    obtain ⟨body, hopen, hcontinues⟩ := Option.any_eq_true _ _ |>.1 htext
    rw [step_of_text registry input rest hopen hcontinues,
      step_of_text registry (input.relabel label) rest' (hbody.trans hopen) hcontinues]
    refine .ok (h.writeBody input body.shift) ?_
    rw [body_writeBody, body_writeBody, hbody]

end Echo
end State

/-! ### Lines of both documents -/

variable {label : Nat → Nat} {kept : Nat → Bool} {state state' : State}

/-- What is below the lines matters up to its first structural line. -/
theorem stepsAbove_echo (registry : Registry) {above rest rest' : List InputLine}
    (hrest : InputLine.nextStructural? rest' = InputLine.nextStructural? rest)
    (hquiet : ∀ input ∈ above, input.line.isTrivia = true → kept (label input.number) = false)
    (h : state.Echo label kept state') (hbody : state'.body = state.body) :
    State.EchoResult label kept (stepsAbove registry state above rest)
      (stepsAbove registry state' (above.map (InputLine.relabel label)) rest') := by
  induction above generalizing state state' with
  | nil => exact .ok h hbody
  | cons input above ih =>
    have hahead : InputLine.nextStructural? (above.map (InputLine.relabel label) ++ rest') =
        InputLine.nextStructural? (above ++ rest) := by
      rw [InputLine.nextStructural?_append, InputLine.nextStructural?_append,
        InputLine.nextStructural?_relabel, hrest]
    have hstep := h.step_of_body hbody registry (hquiet input List.mem_cons_self) hahead
    simp only [stepsAbove, List.map_cons]
    generalize state.step registry input (above ++ rest) = result at hstep
    generalize state'.step registry _ _ = result' at hstep
    cases hstep with
    | error hfault => exact .error hfault
    | ok hnext hopen => exact ih (fun i hi => hquiet i (List.mem_cons_of_mem _ hi)) hnext hopen

theorem stepsAbove_nil (registry : Registry) (state : State) (lines : List InputLine) :
    stepsAbove registry state lines [] = steps registry state lines := by
  induction lines generalizing state with
  | nil => rfl
  | cons input rest ih =>
    rw [stepsAbove, steps, List.append_nil]
    cases state.step registry input rest with
    | ok next => exact ih next
    | error failure => rfl

theorem steps_echo (registry : Registry) {lines : List InputLine}
    (hquiet : ∀ input ∈ lines, input.line.isTrivia = true → kept (label input.number) = false)
    (h : state.Echo label kept state') (hbody : state'.body = state.body) :
    State.EchoResult label kept (steps registry state lines)
      (steps registry state' (lines.map (InputLine.relabel label))) := by
  rw [← stepsAbove_nil, ← stepsAbove_nil]
  exact stepsAbove_echo registry rfl hquiet h hbody

theorem State.Echo.unwind (h : state.Echo label kept state') :
    (unwind state).Echo label kept (unwind state') :=
  State.Echo.tandem.unwind h

end Pass
end Reindent
