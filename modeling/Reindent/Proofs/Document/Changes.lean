import Reindent.Proofs.Document.Course
import Reindent.Proofs.Pass.Stats

/-!
# Reindent.Proofs.Document.Changes

How the passes over a document end.

* `Changes`  — a document that some passes have made of another, each of which changed it.
* `Stops`    — no pass changes the document: it is settled, or a pass over it fails.
* `Changes.eq_of_stops` — a document has one such end, after one number of passes.
* `Draft.Outcome` — what a repair comes to after so many passes: a pass fails, or the document is
  settled, or it still changes.
* `outcome_settle`, `exists_outcome` — every repair comes to one of these.
-/

namespace Reindent

/-- `n` passes make `doc` of `text`, and each of them changes the document. -/
inductive Changes (registry : Registry) : Nat → Text → Text → Prop where
  | refl {text : Text} : Changes registry 0 text text
  | cons {n : Nat} {text doc : Text} {pass : Pass} : Pass.run registry text = .ok pass →
      pass.text text ≠ text → Changes registry n (pass.text text) doc →
      Changes registry (n + 1) text doc

/-- No pass changes the document. -/
def Stops (registry : Registry) (text : Text) : Prop :=
  ∀ pass, Pass.run registry text = .ok pass → pass.text text = text

variable {registry : Registry} {text doc : Text} {pass : Pass}

theorem Settled.stops (h : Settled registry text) : Stops registry text := by
  obtain ⟨pass, hrun, hsame⟩ := h
  intro pass' hrun'
  rw [hrun, Except.ok.injEq] at hrun'
  rw [← hrun']
  exact hsame

theorem stops_of_error {failure : Pass.Failure} (h : Pass.run registry text = .error failure) :
    Stops registry text := by
  intro pass hrun
  rw [h] at hrun
  cases hrun

namespace Changes

theorem single (hrun : Pass.run registry text = .ok pass) (hchanged : pass.text text ≠ text) :
    Changes registry 1 text (pass.text text) :=
  .cons hrun hchanged .refl

theorem trans {n m : Nat} {mid : Text} (h₁ : Changes registry n text mid)
    (h₂ : Changes registry m mid doc) : Changes registry (n + m) text doc := by
  induction h₁ with
  | refl =>
    rw [Nat.zero_add]
    exact h₂
  | cons hrun hchanged _ ih =>
    rw [Nat.add_right_comm]
    exact .cons hrun hchanged (ih h₂)

theorem exists_next {n : Nat} (h : Changes registry n text doc)
    (hrun : Pass.run registry doc = .ok pass) :
    ∃ m, Changes registry m text (pass.text doc) ∧
      (m = n ∧ pass.text doc = doc ∨ m = n + 1 ∧ pass.text doc ≠ doc) := by
  by_cases hsame : pass.text doc = doc
  · refine ⟨n, ?_, .inl ⟨rfl, hsame⟩⟩
    rw [hsame]
    exact h
  · exact ⟨n + 1, h.trans (.single hrun hsame), .inr ⟨rfl, hsame⟩⟩

/-- The passes are determined: of two documents that they make of one, the later is made of the
earlier. -/
theorem split {n m : Nat} {later : Text} (h : Changes registry n text doc)
    (hlater : Changes registry m text later) (hle : n ≤ m) :
    Changes registry (m - n) doc later := by
  induction h generalizing m with
  | refl =>
    rw [Nat.sub_zero]
    exact hlater
  | cons hrun _ _ ih =>
    cases hlater with
    | refl => exact absurd hle (Nat.not_succ_le_zero _)
    | cons hrun' _ hrest =>
      rw [hrun, Except.ok.injEq] at hrun'
      subst hrun'
      rw [Nat.add_sub_add_right]
      exact ih hrest (Nat.le_of_succ_le_succ hle)

theorem eq_of_stops {n : Nat} (h : Changes registry n text doc) (hstops : Stops registry text) :
    n = 0 ∧ doc = text := by
  cases h with
  | refl => exact ⟨rfl, rfl⟩
  | cons hrun hchanged _ => exact absurd (hstops _ hrun) hchanged

theorem eq_of_both_stop {n m : Nat} {doc' : Text} (h : Changes registry n text doc)
    (h' : Changes registry m text doc') (hstops : Stops registry doc)
    (hstops' : Stops registry doc') : n = m ∧ doc = doc' := by
  rcases Nat.le_total n m with hle | hle
  · obtain ⟨hzero, hsame⟩ := (h.split h' hle).eq_of_stops hstops
    exact ⟨by omega, hsame.symm⟩
  · obtain ⟨hzero, hsame⟩ := (h'.split h hle).eq_of_stops hstops'
    exact ⟨by omega, hsame⟩

/-- What is made of a document that a pass changes is made of the result of that pass. -/
theorem after {n : Nat} (h : Changes registry (n + 1) text doc)
    (hrun : Pass.run registry text = .ok pass) : Changes registry n (pass.text text) doc := by
  cases h with
  | cons hrun' _ hrest =>
    rw [hrun, Except.ok.injEq] at hrun'
    subst hrun'
    exact hrest

end Changes

/-! ### The ends of a repair -/

/-- What the passes over `text` come to if at most `limit` of them may change it. The draft of a
document that is settled has the lines of the last pass that changed it, or of the first pass. -/
inductive Draft.Outcome (registry : Registry) (limit : Nat) (text : Text) :
    Except Pass.Failure Draft → Prop where
  | broken {n : Nat} {doc : Text} {failure : Pass.Failure} {events : List Event} :
      Changes registry n text doc → n ≤ limit → Pass.run registry doc = .error failure →
      Draft.Outcome registry limit text (.error ⟨failure.fault, events⟩)
  | settled {n : Nat} {doc : Text} {pass : Pass} {draft : Draft} :
      Changes registry n text doc → n < limit → Pass.run registry doc = .ok pass →
      Settled registry (pass.text doc) → (n = 0 ∨ pass.text doc ≠ doc) →
      draft.lines = pass.lines → draft.stats.documentStart = false →
      Draft.Outcome registry limit text (.ok draft)
  | unstable {doc : Text} {pass : Pass} {events : List Event} :
      Changes registry limit text doc → Pass.run registry doc = .ok pass → pass.text doc ≠ doc →
      Draft.Outcome registry limit text (.error ⟨.unstable maxPasses, events⟩)

theorem Draft.Outcome.cons {limit : Nat} {result : Except Pass.Failure Draft}
    (hrun : Pass.run registry text = .ok pass) (hchanged : pass.text text ≠ text)
    (hnext : ¬ Stops registry (pass.text text))
    (h : Draft.Outcome registry limit (pass.text text) result) :
    Draft.Outcome registry (limit + 1) text result := by
  cases h with
  | broken hchanges hle hfails =>
    exact .broken (.cons hrun hchanged hchanges) (Nat.succ_le_succ hle) hfails
  | settled hchanges hlt hpass hsettled hlast hlines hunmarked =>
    refine .settled (.cons hrun hchanged hchanges) (Nat.succ_lt_succ hlt) hpass hsettled
      (.inr ?_) hlines hunmarked
    rcases hlast with rfl | hlast
    · cases hchanges
      intro hsame
      refine hnext fun pass' hrun' => ?_
      rw [hpass, Except.ok.injEq] at hrun'
      rw [← hrun']
      exact hsame
    · exact hlast
  | unstable hchanges hpass hlast => exact .unstable (.cons hrun hchanged hchanges) hpass hlast

theorem outcome_settle {remaining : Nat} {draft : Draft} (hrun : Pass.run registry text = .ok pass)
    (hchanged : pass.text text ≠ text) (hlines : draft.lines = pass.lines)
    (hbody : draft.body = pass.text text) (hunmarked : draft.stats.documentStart = false) :
    Draft.Outcome registry (remaining + 1) text (draft.settle registry remaining) := by
  induction remaining generalizing text pass draft with
  | zero =>
    rw [Draft.settle]
    split
    · rename_i failure hfails
      rw [hbody] at hfails
      exact .broken (.single hrun hchanged) (Nat.le_refl 1) hfails
    · rename_i last hlast
      rw [hbody] at hlast ⊢
      split
      · rename_i hsame
        exact .settled .refl (by decide) hrun ⟨last, hlast, hsame⟩ (.inl rfl) hlines hunmarked
      · rename_i hlastChanged
        exact .unstable (.single hrun hchanged) hlast hlastChanged
  | succ remaining ih =>
    rw [Draft.settle]
    split
    · rename_i failure hfails
      rw [hbody] at hfails
      exact .broken (.single hrun hchanged) (by omega) hfails
    · rename_i last hlast
      rw [hbody] at hlast
      split
      · rename_i hsame
        rw [hbody] at hsame
        exact .settled .refl (by omega) hrun ⟨last, hlast, hsame⟩ (.inl rfl) hlines hunmarked
      · rename_i hlastChanged
        have hadvanced : (draft.advance (maxPasses - remaining) last).body =
            last.text (pass.text text) := by
          rw [← hbody]
          rfl
        rw [hbody] at hlastChanged
        have hnext : ¬ Stops registry (pass.text text) :=
          fun hstops => hlastChanged (hstops last hlast)
        exact .cons hrun hchanged hnext (ih hlast hlastChanged rfl hadvanced hunmarked)

namespace Engine

/-- A repair checks and finishes what the passes come to. -/
theorem exists_outcome (engine : Engine) (text : Text) :
    ∃ result, Draft.Outcome engine.registry maxPasses text result ∧
      engine.repair text =
        match result with
        | .error failure => .error failure
        | .ok draft =>
          collect text text.splitLines.length
            (if engine.ensureDocumentStart then draft.addMarker else draft) := by
  cases hrun : Pass.run engine.registry text with
  | error failure =>
    refine ⟨.error failure, .broken .refl (Nat.zero_le _) hrun, ?_⟩
    simp only [repair, hrun]
  | ok pass =>
    have hunmarked : (Draft.ofPass pass text).stats.documentStart = false :=
      Pass.documentStart_runLines hrun
    refine ⟨(Draft.ofPass pass text).settle engine.registry (maxPasses - 1), ?_, ?_⟩
    · by_cases hsame : pass.text text = text
      · have hsettled : Settled engine.registry (pass.text text) := by
          rw [hsame]
          exact ⟨pass, hrun, hsame⟩
        have hbody : (Draft.ofPass pass text).body = text := hsame
        have hsettle := @Draft.settle_of_settled engine.registry (Draft.ofPass pass text) pass
          (by rw [hbody, hrun]) (by rw [hbody, hsame]) (maxPasses - 1)
        rw [hsettle]
        exact .settled .refl (by decide) hrun hsettled (.inl rfl) rfl hunmarked
      · exact outcome_settle hrun hsame rfl rfl hunmarked
    · cases hsettle : (Draft.ofPass pass text).settle engine.registry (maxPasses - 1) with
      | error failure => simp only [repair, hrun, hsettle]
      | ok draft => simp only [repair, hrun, hsettle, Pass.inputLines_run hrun]

end Engine
end Reindent
