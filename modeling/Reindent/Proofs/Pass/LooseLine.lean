import Reindent.Proofs.Pass.Echo

/-!
# Reindent.Proofs.Pass.LooseLine

Lines without a part in the structure: blank lines, comments, and lines with a tab in their
indentation.

* `hasContent`  — the line with a number is neither blank nor a comment.
* `cutsText`    — a line ends a block scalar, and the lines below it go on with the text.
* `cutsText_iff` — that is to say, the first line below reads otherwise than without it.
* `SameContent` — two outputs have the same lines with content, but for one more line.
* `loose_line_inert` — a loose line changes nothing for the lines with content, unless it cuts the
  text of a block scalar.
* `not_loose_line_inert` — a comment in the text of a script.
-/

namespace Reindent

/-- The number that the line `n` gets when one more line is put in below the first `count`. -/
def numberPast (count n : Nat) : Nat :=
  if n ≤ count then n else n + 1

/-- The line with the number `n` is neither blank nor a comment. -/
def hasContent (lines : List RawLine) : Nat → Bool
  | 0 => false
  | n + 1 => lines[n]?.any fun raw => !(Line.ofText raw.body).isTrivia

/-- The first line that is not blank goes on with the text of a block scalar. -/
def goesOn (opener : Nat) (lines : List RawLine) : Bool :=
  (lines.find? fun raw => (Line.ofText raw.body).category != .blank).any fun first =>
    first.isTextOf opener

/-- Between `above` and `below`, the line `raw` ends the text of a block scalar, which goes on
below it. -/
def cutsText (above : List RawLine) (raw : RawLine) (below : List RawLine) : Bool :=
  (openBelow above).any fun opener => !raw.isTextOf opener && goesOn opener below

theorem goesOn_cons (opener : Nat) (raw : RawLine) (rest : List RawLine) :
    goesOn opener (raw :: rest) =
      if (Line.ofText raw.body).category = .blank then goesOn opener rest
      else raw.isTextOf opener := by
  rw [goesOn, List.find?_cons]
  split
  · rename_i hblank
    rw [if_neg (bne_iff_ne.1 hblank)]
    rfl
  · rename_i hblank
    rw [if_pos (by simpa using hblank)]
    rfl

theorem openBelow_append (above below : List RawLine) :
    openBelow (above ++ below) = below.foldl openAfter (openBelow above) :=
  List.foldl_append

theorem RawLine.opens?_of_loose {raw : RawLine} (h : (Line.ofText raw.body).isStructural = false) :
    raw.opens? = none := by
  simp [opens?, h]

theorem foldl_openAfter_blank {lines : List RawLine}
    (h : ∀ raw ∈ lines, (Line.ofText raw.body).category = .blank) (opener : Option Nat) :
    lines.foldl openAfter opener = opener := by
  induction lines with
  | nil => rfl
  | cons raw rest ih =>
    have hblank := h raw List.mem_cons_self
    have hfirst : openAfter opener raw = opener := by
      cases opener with
      | none =>
        have hloose : (Line.ofText raw.body).isStructural = false := by
          simp [Line.isStructural, Line.isTrivia, hblank]
        exact RawLine.opens?_of_loose hloose
      | some opener => simp [openAfter, RawLine.isTextOf, hblank]
    rw [List.foldl_cons, hfirst]
    exact ih fun line hline => h line (List.mem_cons_of_mem _ hline)

/-- A loose line cuts the text of a block scalar exactly if the first line below that is not blank
is text without the loose line, and not with it. -/
theorem cutsText_iff {above below : List RawLine} {raw : RawLine}
    (hloose : (Line.ofText raw.body).isStructural = false) :
    cutsText above raw below = true ↔
      ∃ blanks first rest, below = blanks ++ first :: rest ∧
        (∀ line ∈ blanks, (Line.ofText line.body).category = .blank) ∧
        (Line.ofText first.body).category ≠ .blank ∧
        (openBelow (above ++ blanks)).any first.isTextOf = true ∧
        (openBelow (above ++ raw :: blanks)).any first.isTextOf = false := by
  have hends : openAfter (openBelow above) raw =
      if (openBelow above).any raw.isTextOf then openBelow above else none := by
    rw [openAfter, RawLine.opens?_of_loose hloose]
  constructor
  · intro hcuts
    obtain ⟨opener, hopener, hcuts⟩ := Option.any_eq_true _ _ |>.1 hcuts
    simp only [Bool.and_eq_true, Bool.not_eq_true'] at hcuts
    obtain ⟨first, hfirst, htext⟩ := Option.any_eq_true _ _ |>.1 hcuts.2
    obtain ⟨hcontent, blanks, rest, hbelow, hblanks⟩ := List.find?_eq_some_iff_append.1 hfirst
    have hblank : ∀ line ∈ blanks, (Line.ofText line.body).category = .blank := by
      intro line hline
      simpa using hblanks line hline
    refine ⟨blanks, first, rest, hbelow, hblank, bne_iff_ne.1 hcontent, ?_, ?_⟩
    · rw [openBelow_append, foldl_openAfter_blank hblank, hopener, Option.any_some, htext]
    · rw [openBelow_append, List.foldl_cons, foldl_openAfter_blank hblank, hends, hopener,
        Option.any_some, hcuts.1]
      rfl
  · rintro ⟨blanks, first, rest, rfl, hblank, hcontent, htext, hcut⟩
    rw [openBelow_append, foldl_openAfter_blank hblank] at htext
    rw [openBelow_append, List.foldl_cons, foldl_openAfter_blank hblank, hends] at hcut
    obtain ⟨opener, hopener, hfirst⟩ := Option.any_eq_true _ _ |>.1 htext
    have hraw : raw.isTextOf opener = false := by
      rw [hopener, Option.any_some] at hcut
      cases hraw : raw.isTextOf opener with
      | false => rfl
      | true =>
        rw [hraw, if_pos rfl, Option.any_some, hfirst] at hcut
        cases hcut
    have hfind : (blanks ++ first :: rest).find?
        (fun line => (Line.ofText line.body).category != .blank) = some first := by
      refine List.find?_eq_some_iff_append.2 ⟨bne_iff_ne.2 hcontent, blanks, rest, rfl, ?_⟩
      intro line hline
      simp [hblank line hline]
    rw [cutsText, hopener, Option.any_some, hraw, goesOn, hfind, Option.any_some, hfirst]
    rfl

/-! ### The numbers of the lines -/

theorem numberPast_of_le {count n : Nat} (h : n ≤ count) : numberPast count n = n :=
  if_pos h

theorem numberPast_of_lt {count n : Nat} (h : count < n) : numberPast count n = n + 1 :=
  if_neg (Nat.not_le.2 h)

theorem numberPast_ne (count n : Nat) : numberPast count n ≠ count + 1 := by
  rw [numberPast]
  split <;> omega

theorem hasContent_numberPast (above : List RawLine) (raw : RawLine) (below : List RawLine)
    (n : Nat) :
    hasContent (above ++ raw :: below) (numberPast above.length n) =
      hasContent (above ++ below) n := by
  rcases Nat.lt_or_ge above.length n with hbelow | habove
  · obtain ⟨i, rfl⟩ := Nat.exists_eq_add_of_lt hbelow
    have hwith : (above ++ raw :: below)[above.length + i + 1]? = below[i]? := by
      rw [Nat.add_assoc, List.getElem?_append_right (Nat.le_add_right _ _),
        Nat.add_sub_cancel_left, List.getElem?_cons_succ]
    have hwithout : (above ++ below)[above.length + i]? = below[i]? := by
      rw [List.getElem?_append_right (Nat.le_add_right _ _), Nat.add_sub_cancel_left]
    rw [numberPast_of_lt hbelow, hasContent, hasContent, hwith, hwithout]
  · rw [numberPast_of_le habove]
    cases n with
    | zero => rfl
    | succ i =>
      rw [hasContent, hasContent, List.getElem?_append_left habove,
        List.getElem?_append_left habove]

theorem hasContent_of_mem {lines : List RawLine} {input : InputLine}
    (h : input ∈ InputLine.ofLines 1 lines) :
    hasContent lines input.number = !input.line.isTrivia := by
  obtain ⟨i, raw, hraw, rfl⟩ := InputLine.raw_of_mem_ofLines h
  rw [Nat.add_comm, hasContent, hraw, Option.any_some]

namespace InputLine

theorem map_relabel_ofLines {label : Nat → Nat} {n m : Nat} {lines : List RawLine}
    (h : ∀ i < lines.length, label (n + i) = m + i) :
    (ofLines n lines).map (relabel label) = ofLines m lines := by
  induction lines generalizing n m with
  | nil => rfl
  | cons raw rest ih =>
    have hfirst : label n = m := h 0 (Nat.succ_pos _)
    have hrest : ∀ i < rest.length, label (n + 1 + i) = m + 1 + i := by
      intro i hi
      rw [Nat.add_assoc, Nat.add_comm 1 i, h (i + 1) (Nat.succ_lt_succ hi)]
      omega
    rw [ofLines, ofLines, List.map_cons, ih hrest, relabel, hfirst]

theorem relabel_above (above : List RawLine) :
    (ofLines 1 above).map (relabel (numberPast above.length)) = ofLines 1 above :=
  map_relabel_ofLines fun _ hi => numberPast_of_le (by omega)

theorem relabel_below (count : Nat) (below : List RawLine) :
    (ofLines (1 + count) below).map (relabel (numberPast count)) =
      ofLines (1 + count + 1) below :=
  map_relabel_ofLines fun _ _ => (numberPast_of_lt (by omega)).trans (by omega)

end InputLine

namespace Pass

variable {label : Nat → Nat} {kept : Nat → Bool} {registry : Registry} {state state' : State}

/-- The passes break off with the same fault, or both reach the end. -/
def EchoEnd (label : Nat → Nat) (kept : Nat → Bool) (result result' : Except Failure State) :
    Prop :=
  (∃ failure failure', result = .error failure ∧ result' = .error failure' ∧
      failure'.fault = failure.fault) ∨
    ∃ final final', result = .ok final ∧ result' = .ok final' ∧ final.Echo label kept final'

theorem State.EchoResult.echoEnd {result result' : Except Failure State}
    (h : State.EchoResult label kept result result') : EchoEnd label kept result result' := by
  cases h with
  | ok hecho _ => exact .inr ⟨_, _, rfl, rfl, hecho⟩
  | error hfault => exact .inl ⟨_, _, rfl, rfl, hfault⟩

/-- A blank line is text of a block scalar in the first pass and not in the second one. -/
theorem State.Echo.step_blank (h : state.Echo label kept state') (registry : Registry)
    {body : ScalarBody} (hbody : state.body = some body) (hbody' : state'.body = none)
    (input : InputLine) (hblank : input.line.category = .blank)
    (hskip : kept (label input.number) = false) (rest rest' : List InputLine) :
    ∃ next next', state.step registry input rest = .ok next ∧
      state'.step registry (input.relabel label) rest' = .ok next' ∧
      next.Echo label kept next' ∧ next.body = some body ∧ next'.body = none := by
  have hloose : input.line.isStructural = false := by
    simp [Line.isStructural, Line.isTrivia, hblank]
  obtain ⟨next, hstep, hadds, hnext⟩ := State.step_of_loose registry state input hloose rest
  obtain ⟨next', hstep', hadds', hnext'⟩ :=
    State.step_of_loose registry state' (input.relabel label) hloose rest'
  have hcontinues : State.continuesBody input.line body = true := by
    simp [State.continuesBody, hblank]
  rw [hbody, Option.filter_some, if_pos hcontinues] at hnext
  rw [hbody', Option.filter_none] at hnext'
  exact ⟨next, next', hstep, hstep', (h.skip hadds hskip).skip' hadds' hskip, hnext, hnext'⟩

/-- Once a line has ended a block scalar in the second pass only, blank lines are text in the first
one only. The first other line, if it does not go on with the text, brings the passes together. -/
theorem steps_after_cut (registry : Registry) {below : List RawLine} {n : Nat} {body : ScalarBody}
    (hquiet : ∀ input ∈ InputLine.ofLines n below, input.line.isTrivia = true →
      kept (label input.number) = false)
    (h : state.Echo label kept state') (hbody : state.body = some body)
    (hbody' : state'.body = none) (hends : goesOn body.opener below = false) :
    EchoEnd label kept (steps registry state (InputLine.ofLines n below))
      (steps registry state' ((InputLine.ofLines n below).map (InputLine.relabel label))) := by
  induction below generalizing n state state' with
  | nil => exact .inr ⟨_, _, rfl, rfl, h⟩
  | cons raw rest ih =>
    have hfirst := hquiet ⟨n, Line.ofText raw.body, raw.ending⟩ List.mem_cons_self
    have hrest : ∀ input ∈ InputLine.ofLines (n + 1) rest, input.line.isTrivia = true →
        kept (label input.number) = false :=
      fun input hinput => hquiet input (List.mem_cons_of_mem _ hinput)
    simp only [InputLine.ofLines, List.map_cons, steps]
    rw [goesOn_cons] at hends
    split at hends
    · rename_i hblank
      have hskip : kept (label n) = false := hfirst (by simp [Line.isTrivia, hblank])
      obtain ⟨next, next', hstep, hstep', hecho, hnext, hnext'⟩ :=
        h.step_blank registry hbody hbody' ⟨n, Line.ofText raw.body, raw.ending⟩ hblank hskip
          (InputLine.ofLines (n + 1) rest)
          ((InputLine.ofLines (n + 1) rest).map (InputLine.relabel label))
      rw [hstep, hstep']
      exact ih hrest hecho hnext hnext' hends
    -- The line is text in neither pass, and leaves the same block scalar open in both.
    · have htext : state.body.any (State.continuesBody (Line.ofText raw.body)) = false := by
        rw [hbody, Option.any_some]
        exact hends
      have htext' : state'.body.any (State.continuesBody (Line.ofText raw.body)) = false := by
        rw [hbody', Option.any_none]
      have hstep := h.step registry hfirst
        (InputLine.nextStructural?_relabel label (InputLine.ofLines (n + 1) rest)) htext htext'
      generalize state.step registry _ _ = result at hstep
      generalize state'.step registry _ _ = result' at hstep
      cases hstep with
      | error hfault => exact .inl ⟨_, _, rfl, rfl, hfault⟩
      | ok hnext hsame => exact (steps_echo registry hrest hnext hsame).echoEnd

theorem steps_past_loose (registry : Registry) {below : List RawLine} {n : Nat} {input : InputLine}
    (hloose : input.line.isStructural = false) (hskip : kept input.number = false)
    (hquiet : ∀ input ∈ InputLine.ofLines n below, input.line.isTrivia = true →
      kept (label input.number) = false)
    (h : state.Echo label kept state') (hbody : state'.body = state.body)
    (hends : ∀ body, state.body = some body → State.continuesBody input.line body = false →
      goesOn body.opener below = false) :
    EchoEnd label kept (steps registry state (InputLine.ofLines n below))
      (steps registry state'
        (input :: (InputLine.ofLines n below).map (InputLine.relabel label))) := by
  obtain ⟨next', hstep', hadds, hnext'⟩ := State.step_of_loose registry state' input hloose
    ((InputLine.ofLines n below).map (InputLine.relabel label))
  have hecho := h.skip' hadds hskip
  rw [steps, hstep']
  rw [hbody] at hnext'
  cases hopen : state.body with
  | none =>
    rw [hopen, Option.filter_none] at hnext'
    exact (steps_echo registry hquiet hecho (hnext'.trans hopen.symm)).echoEnd
  | some body =>
    rw [hopen, Option.filter_some] at hnext'
    split at hnext'
    · exact (steps_echo registry hquiet hecho (hnext'.trans hopen.symm)).echoEnd
    · rename_i htext
      exact steps_after_cut registry hquiet hecho hopen hnext'
        (hends body hopen (Bool.eq_false_iff.2 htext))

/-! ### The pass with the line and the pass without -/

/-- The line `n` of the document with `raw` has content, and is not `raw` itself. -/
def keptPast (above : List RawLine) (raw : RawLine) (below : List RawLine) (n : Nat) : Bool :=
  n != above.length + 1 && hasContent (above ++ raw :: below) n

/-- `pass` is over the lines `above` and `below`, and `pass'` over the same lines with `raw` between
them. Apart from `raw`, the lines with content are written with the same text and in the same order,
and the same ones are relocated. -/
def SameContent (above : List RawLine) (raw : RawLine) (below : List RawLine) (pass pass' : Pass) :
    Prop :=
  (pass'.lines.filter fun out => keptPast above raw below out.number) =
    (pass.lines.filter fun out => hasContent (above ++ below) out.number).map
      (OutLine.relabel (numberPast above.length))

instance (above : List RawLine) (raw : RawLine) (below : List RawLine) (pass pass' : Pass) :
    Decidable (SameContent above raw below pass pass') :=
  inferInstanceAs (Decidable (_ = _))

section Between

variable {above below : List RawLine} {raw : RawLine}

theorem keptPast_numberPast (n : Nat) :
    keptPast above raw below (numberPast above.length n) = hasContent (above ++ below) n := by
  rw [keptPast, hasContent_numberPast, bne_iff_ne.2 (numberPast_ne _ _), Bool.true_and]

theorem keptPast_self : keptPast above raw below (1 + above.length) = false := by
  rw [keptPast, Nat.add_comm, bne_self_eq_false, Bool.false_and]

theorem steps_loose (registry : Registry) (hloose : (Line.ofText raw.body).isStructural = false)
    (hcuts : cutsText above raw below = false) :
    EchoEnd (numberPast above.length) (keptPast above raw below)
      (steps registry {} (InputLine.ofLines 1 (above ++ below)))
      (steps registry {} (InputLine.ofLines 1 (above ++ raw :: below))) := by
  have hquiet : ∀ input ∈ InputLine.ofLines 1 (above ++ below), input.line.isTrivia = true →
      keptPast above raw below (numberPast above.length input.number) = false := by
    intro input hinput htrivia
    rw [keptPast_numberPast, hasContent_of_mem hinput, htrivia, Bool.not_true]
  rw [InputLine.ofLines_append] at hquiet
  have hbelow := fun input hinput => hquiet input (List.mem_append_right _ hinput)
  -- The lines above look past `raw`, to the same line.
  have hnext : InputLine.nextStructural?
        (InputLine.ofLines (1 + above.length) (raw :: below)) =
      InputLine.nextStructural? (InputLine.ofLines (1 + above.length) below) := by
    rw [InputLine.ofLines, InputLine.nextStructural?_of_loose hloose, ← InputLine.relabel_below,
      InputLine.nextStructural?_relabel]
  have hinitial : State.Echo (numberPast above.length) (keptPast above raw below) {} {} :=
    ⟨⟨rfl, rfl⟩, rfl, rfl, fun _ hout => absurd hout List.not_mem_nil,
      fun _ hout => absurd hout List.not_mem_nil⟩
  have habove := stepsAbove_echo registry hnext
    (fun input hinput => hquiet input (List.mem_append_left _ hinput)) hinitial rfl
  rw [InputLine.relabel_above] at habove
  rw [InputLine.ofLines_append, InputLine.ofLines_append, steps_append, steps_append]
  generalize hresult : stepsAbove registry {} _ (InputLine.ofLines _ below) = result at habove ⊢
  generalize stepsAbove registry {} _ (InputLine.ofLines _ (raw :: below)) = result' at habove ⊢
  cases habove with
  | error hfault => exact .inl ⟨_, _, rfl, rfl, hfault⟩
  | @ok state state' h hbody =>
    have hopener : state.body.map ScalarBody.opener = openBelow above := opener_stepsAbove hresult
    simp only [InputLine.ofLines]
    rw [← InputLine.relabel_below]
    refine steps_past_loose registry hloose keptPast_self hbelow h hbody fun body hopen htext => ?_
    have hends : raw.isTextOf body.opener = false := htext
    rw [cutsText, ← hopener, hopen, Option.map_some, Option.any_some, hends] at hcuts
    exact hcuts

end Between

/-- A line without a part in the structure changes nothing for the lines with content, unless it
cuts the text of a block scalar: with it and without it a pass fails with the same fault, or every
line is written, and the lines with content are relocated or not and written with the same text and
in the same order. -/
theorem loose_line_inert (registry : Registry) (above below : List RawLine) (raw : RawLine)
    (hloose : (Line.ofText raw.body).isStructural = false)
    (hcuts : cutsText above raw below = false) :
    (∃ failure failure', runLines registry (above ++ below) = .error failure ∧
        runLines registry (above ++ raw :: below) = .error failure' ∧
        failure'.fault = failure.fault) ∨
      ∃ pass pass', runLines registry (above ++ below) = .ok pass ∧
        runLines registry (above ++ raw :: below) = .ok pass' ∧
        (pass.lines.map OutLine.number).Perm (List.range' 1 (above ++ below).length) ∧
        SameContent above raw below pass pass' := by
  rcases steps_loose registry hloose hcuts with
    ⟨failure, failure', hsteps, hsteps', hfault⟩ | ⟨final, final', hsteps, hsteps', hecho⟩
  · refine .inl ⟨failure, failure', ?_, ?_, hfault⟩
    · rw [runLines, hsteps]
    · rw [runLines, hsteps']
  · have hrun := runLines_of_steps hsteps
    refine .inr ⟨_, _, hrun, runLines_of_steps hsteps', perm_number_runLines hrun, ?_⟩
    have hkept : keptPast above raw below ∘ numberPast above.length =
        hasContent (above ++ below) := funext keptPast_numberPast
    have hshown := hecho.unwind.shown
    rw [hkept, State.shown, State.shown] at hshown
    rw [SameContent, List.filter_reverse, List.filter_reverse, hshown, List.map_reverse]

/-- A task's tags, up to the first one. -/
def tagsAbove : List RawLine :=
  [⟨"tasks:".toList, .lf⟩, ⟨"- name: t".toList, .lf⟩, ⟨"  tags:".toList, .lf⟩,
    ⟨"  - a".toList, .lf⟩]

/-- An attribute among the tags, which is relocated, and the next task. -/
def registerBelow : List RawLine :=
  [⟨"    register: r".toList, .lf⟩, ⟨"- name: u".toList, .lf⟩]

/-- A line with a tab between the tags and the attribute is passed over. -/
theorem loose_line_inert_tabAmongTags :
    let raw : RawLine := ⟨"\tb".toList, .lf⟩
    (Line.ofText raw.body).isStructural = false ∧ cutsText tagsAbove raw registerBelow = false ∧
      ∃ pass pass', runLines .standard (tagsAbove ++ registerBelow) = .ok pass ∧
        runLines .standard (tagsAbove ++ raw :: registerBelow) = .ok pass' ∧
        (pass.lines.map OutLine.number).Perm [1, 2, 3, 4, 5, 6] ∧
        SameContent tagsAbove raw registerBelow pass pass' ∧ pass.stats.relocated = 1 := by
  intro raw
  have hloose : (Line.ofText raw.body).isStructural = false := by decide +kernel
  have hcuts : cutsText tagsAbove raw registerBelow = false := by decide +kernel
  have hrelocates : (runLines .standard (tagsAbove ++ registerBelow)).toOption.any
      (fun pass => pass.stats.relocated == 1) = true := by decide +kernel
  rcases loose_line_inert .standard tagsAbove registerBelow raw hloose hcuts with
    ⟨failure, _, hfails, _⟩ | ⟨pass, pass', hrun, hrun', hnumbers, hsame⟩
  · rw [hfails] at hrelocates
    cases hrelocates
  · rw [hrun] at hrelocates
    exact ⟨hloose, hcuts, pass, pass', hrun, hrun', hnumbers, hsame, beq_iff_eq.1 hrelocates⟩

/-- A task with a script, up to a line of the script. -/
def scriptAbove : List RawLine :=
  [⟨"- name: t".toList, .lf⟩, ⟨"  shell: |".toList, .lf⟩, ⟨"    a".toList, .lf⟩]

/-- More of the script, which looks like a list. -/
def scriptBelow : List RawLine :=
  [⟨"    tags:".toList, .lf⟩, ⟨"    - x".toList, .lf⟩]

/-- A comment at the left edge ends the script, so that what is below it takes part in the
structure. -/
theorem not_loose_line_inert :
    ¬ ∀ (registry : Registry) (above below : List RawLine) (raw : RawLine),
        (Line.ofText raw.body).isStructural = false →
        (∃ failure failure', runLines registry (above ++ below) = .error failure ∧
            runLines registry (above ++ raw :: below) = .error failure' ∧
            failure'.fault = failure.fault) ∨
          ∃ pass pass', runLines registry (above ++ below) = .ok pass ∧
            runLines registry (above ++ raw :: below) = .ok pass' ∧
            SameContent above raw below pass pass' := by
  intro hinert
  have hfacts : (match runLines .standard (scriptAbove ++ scriptBelow),
        runLines .standard (scriptAbove ++ ⟨"# c".toList, .lf⟩ :: scriptBelow) with
      | .ok pass, .ok pass' => !decide (SameContent scriptAbove ⟨"# c".toList, .lf⟩ scriptBelow
          pass pass')
      | _, _ => false) = true := by decide +kernel
  rcases hinert .standard scriptAbove scriptBelow ⟨"# c".toList, .lf⟩ (by decide +kernel) with
    ⟨failure, _, hfails, _⟩ | ⟨pass, pass', hrun, hrun', hsame⟩
  · rw [hfails] at hfacts
    cases hfacts
  · rw [hrun, hrun'] at hfacts
    simp only [Bool.not_eq_true', decide_eq_false_iff_not] at hfacts
    exact hfacts hsame

end Pass
end Reindent
