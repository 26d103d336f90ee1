import Reindent.Proofs.Document.Course

/-!
# Reindent.Proofs.Document.Back

Passes that lead back to the document they started from.

* `map_bare_docs`  — every document on the way is that document but for the ends of its lines.
* `returnsAt_docs` — the passes have not moved a single carriage return.
* `settled_of_back` — the first pass has left the document as it is.
-/

namespace Reindent

variable {registry : Registry} {text : Text}

namespace Course

variable {k : Nat} (course : Course registry text k)
  (hcount : (course.passes k).rawLines.length = text.splitLines.length)
include hcount

/-- If the result is the first document, then every document of the course is that document but for
the ends of its lines. -/
theorem map_bare_docs (hback : joinLines text (course.passes k).rawLines = text) {j : Nat}
    (hj : j ≤ k + 1) :
    (course.docs j).splitLines.map RawLine.bare = text.splitLines.map RawLine.bare := by
  have hlast : (course.docs (k + 1)).splitLines.map RawLine.bare =
      text.splitLines.map RawLine.bare := by
    rw [← course.map_bare_result hcount, hback]
  rcases Nat.lt_or_eq_of_le hj with hlt | rfl
  · induction j with
    | zero => rw [course.start]
    | succ j ih =>
      have hdoc := ih (by omega) (by omega)
      have hrun := course.runs j (by omega)
      have hkeeps := Pass.keeps_of_text_eq (course.runs (k + 1) (Nat.le_refl _)) course.settled
      obtain ⟨pass, hpass, hsame⟩ := Pass.run_of_bare (course.runs (k + 1) (Nat.le_refl _))
        (hdoc.trans hlast.symm)
      rw [hrun, Except.ok.injEq] at hpass
      subst hpass
      have hnext := course.next j (by omega)
      have hlength : ((course.passes j).text (course.docs j)).splitLines.length =
          (course.docs j).splitLines.length := by
        rw [← hnext, course.length_docs hcount (by omega), course.length_docs hcount (by omega)]
      rw [hnext, ← hdoc]
      exact (hkeeps.congr hsame (hdoc.trans hlast.symm)).map_bare_text hrun hlength
  · exact hlast

theorem source_docs (hback : joinLines text (course.passes k).rawLines = text) {j : Nat}
    (hj : j ≤ k + 1) (i : Nat) : (course.passes j).source i = (course.passes 0).source i := by
  have hbare : (course.docs j).splitLines.map RawLine.bare =
      (course.docs 0).splitLines.map RawLine.bare := by
    rw [course.map_bare_docs hcount hback hj, course.start]
  obtain ⟨pass, hpass, hsame⟩ := Pass.run_of_bare (course.runs 0 (Nat.zero_le _)) hbare
  rw [course.runs j hj, Except.ok.injEq] at hpass
  subst hpass
  exact Pass.source_congr hsame i

end Course

theorem Text.eq_of_returnsAt {t t' : Text}
    (hbare : t.splitLines.map RawLine.bare = t'.splitLines.map RawLine.bare)
    (hfinal : t.finalEnding = .missing ↔ t'.finalEnding = .missing)
    (hreturns : ∀ i < t.splitLines.length, t.returnsAt i = t'.returnsAt i) : t = t' := by
  have hlength : t.splitLines.length = t'.splitLines.length := by
    have h := congrArg List.length hbare
    rwa [List.length_map, List.length_map] at h
  have hsplit : t.splitLines = t'.splitLines := by
    refine List.ext_getElem hlength fun i hi hi' => ?_
    have hline := List.getElem?_eq_getElem hi
    have hline' := List.getElem?_eq_getElem hi'
    have hcore := congrArg (fun lines : List RawLine => lines[i]?) hbare
    simp only [List.getElem?_map, hline, hline', Option.map_some, Option.some.injEq,
      RawLine.bare_eq_iff] at hcore
    have hsame := hreturns i hi
    rw [returnsAt_of_getElem? hline, returnsAt_of_getElem? hline'] at hsame
    refine RawLine.eq_of_core (reread_of_mem_splitLines (List.getElem_mem hi))
      (reread_of_mem_splitLines (List.getElem_mem hi')) hcore hsame ?_
    rw [missing_iff hline, missing_iff hline', hlength, hfinal]
  rw [← flatMap_text_splitLines t, hsplit, flatMap_text_splitLines]

namespace Course

variable {k : Nat} (course : Course registry text k)
  (hcount : (course.passes k).rawLines.length = text.splitLines.length)
  (hback : joinLines text (course.passes k).rawLines = text)
include hcount hback

theorem length_docs_of_back {j : Nat} (hj : j ≤ k + 1) :
    (course.docs j).splitLines.length = text.splitLines.length := by
  have h := congrArg List.length (course.map_bare_docs hcount hback hj)
  rwa [List.length_map, List.length_map] at h

theorem finalEnding_docs_of_back {j : Nat} (hj : j ≤ k + 1) :
    (course.docs j).finalEnding = .missing ↔ text.finalEnding = .missing := by
  rcases Nat.lt_or_eq_of_le hj with hlt | rfl
  · exact course.finalEnding_docs hcount (by omega)
  · have hnext := course.next k (Nat.le_refl k)
    have hlength : ((course.passes k).text (course.docs k)).splitLines.length =
        (course.docs k).splitLines.length := by
      rw [← hnext, course.length_docs_of_back hcount hback (Nat.le_refl _),
        course.length_docs hcount (Nat.le_refl k)]
    rw [← course.finalEnding_docs hcount (Nat.le_refl k), hnext]
    exact Pass.finalEnding_text_iff (course.runs k (Nat.le_succ k)) hlength

section Returns

variable {last : Nat} (hlast : text.splitLines.length = last + 1) {j : Nat} (hj : j ≤ k + 1)
  {model joined : Text} (hmodel : model.splitLines.length = last + 1)
  (hjoined : joinLines model (course.passes j).rawLines = joined)
  (hlength : joined.splitLines.length = last + 1)
include hlast hj hmodel hjoined hlength

theorem returnsAt_of_closed (hfinal : text.finalEnding ≠ .missing)
    (hmodelFinal : model.finalEnding ≠ .missing) {i : Nat} (hi : i ≤ last) :
    joined.returnsAt i =
      closedReturns last (course.passes 0).source (decide (0 < model.returnsAt last))
        (course.docs j).returnsAt i := by
  have hrun := course.runs j hj
  have hlines : (course.passes j).lines.length = last + 1 := by
    rw [Pass.length_lines_run hrun, course.length_docs_of_back hcount hback hj, hlast]
  have hdoc : (course.docs j).finalEnding ≠ .missing := fun h =>
    hfinal ((course.finalEnding_docs_of_back hcount hback hj).1 h)
  have hsource : (course.passes 0).source = (course.passes j).source :=
    funext fun i => (course.source_docs hcount hback hj i).symm
  rw [← hjoined] at hlength ⊢
  rw [hsource, ← Text.decide_finalEnding hmodel hmodelFinal]
  exact Pass.returnsAt_joinLines_of_closed hrun hdoc (hlength.trans hlines.symm) hlines hi

theorem returnsAt_of_open (hfinal : text.finalEnding = .missing)
    (hmodelFinal : model.finalEnding = .missing) {i : Nat} (hi : i ≤ last) :
    joined.returnsAt i =
      openReturns last (course.passes 0).source (hasReturns last model.returnsAt)
        (course.docs j).returnsAt i := by
  have hrun := course.runs j hj
  have hlines : (course.passes j).lines.length = last + 1 := by
    rw [Pass.length_lines_run hrun, course.length_docs_of_back hcount hback hj, hlast]
  have hdoc := (course.finalEnding_docs_of_back hcount hback hj).2 hfinal
  have hsource : (course.passes 0).source = (course.passes j).source :=
    funext fun i => (course.source_docs hcount hback hj i).symm
  rw [← hjoined] at hlength ⊢
  rw [hsource, ← Text.decide_commonEnding hmodel hmodelFinal]
  exact Pass.returnsAt_joinLines_of_open hrun hdoc hmodelFinal (hlength.trans hlines.symm) hlines hi

end Returns

/-- The passes have not moved a single carriage return. -/
theorem returnsAt_docs {last : Nat} (hlast : text.splitLines.length = last + 1) :
    ∀ i ≤ last, (course.docs (k + 1)).returnsAt i = text.returnsAt i := by
  have hlength : ∀ j ≤ k + 1, (course.docs j).splitLines.length = last + 1 := by
    intro j hj
    rw [course.length_docs_of_back hcount hback hj, hlast]
  have hnext : ∀ j ≤ k,
      joinLines (course.docs j) (course.passes j).rawLines = course.docs (j + 1) :=
    fun j hj => (course.next j hj).symm
  have hrun := course.runs 0 (Nat.zero_le _)
  have hlines : (course.passes 0).lines.length = last + 1 := by
    rw [Pass.length_lines_run hrun, hlength 0 (Nat.zero_le _)]
  have hsource : ∀ i ≤ last, (course.passes 0).source i ≤ last := by
    intro i hi
    have hlt := Pass.source_lt hrun (show i < (course.passes 0).lines.length by omega)
    rw [hlength 0 (Nat.zero_le _)] at hlt
    omega
  have hstart : (course.docs 0).returnsAt = text.returnsAt := by
    rw [course.start]
  -- Each document has its carriage returns from the one before, the last one from itself, and the
  -- first one from that before the last.
  rw [← hstart]
  by_cases hfinal : text.finalEnding = .missing
  · have hopen : ∀ j ≤ k + 1, (course.docs j).finalEnding = .missing := fun j hj =>
      (course.finalEnding_docs_of_back hcount hback hj).2 hfinal
    have hinjective : ∀ i ≤ last, ∀ i' ≤ last,
        (course.passes 0).source i = (course.passes 0).source i' → i = i' :=
      fun i hi i' hi' heq => Pass.source_injective hrun (by omega) (by omega) heq
    refine openReturns_settled (r := fun j => (course.docs j).returnsAt) ⟨?_, ?_, ?_⟩ hsource
      hinjective
    · intro j hj i hi
      exact course.returnsAt_of_open hcount hback hlast (by omega) (hlength j (by omega))
        (hnext j hj) (hlength (j + 1) (by omega)) hfinal (hopen j (by omega)) hi
    · intro i hi
      exact course.returnsAt_of_open hcount hback hlast (Nat.le_refl _) (hlength _ (Nat.le_refl _))
        course.settled (hlength _ (Nat.le_refl _)) hfinal (hopen _ (Nat.le_refl _)) hi
    · intro i hi
      rw [hstart]
      exact course.returnsAt_of_open hcount hback hlast (Nat.le_succ k) hlast hback hlast hfinal
        hfinal hi
  · have hclosed : ∀ j ≤ k + 1, (course.docs j).finalEnding ≠ .missing := fun j hj h =>
      hfinal ((course.finalEnding_docs_of_back hcount hback hj).1 h)
    refine closedReturns_settled (r := fun j => (course.docs j).returnsAt) ⟨?_, ?_, ?_⟩ hsource
    · intro j hj i hi
      exact course.returnsAt_of_closed hcount hback hlast (by omega) (hlength j (by omega))
        (hnext j hj) (hlength (j + 1) (by omega)) hfinal (hclosed j (by omega)) hi
    · intro i hi
      exact course.returnsAt_of_closed hcount hback hlast (Nat.le_refl _)
        (hlength _ (Nat.le_refl _)) course.settled (hlength _ (Nat.le_refl _)) hfinal
        (hclosed _ (Nat.le_refl _)) hi
    · intro i hi
      rw [hstart]
      exact course.returnsAt_of_closed hcount hback hlast (Nat.le_succ k) hlast hback hlast hfinal
        hfinal hi

theorem settled_of_back : Settled registry text := by
  have hlength := course.length_docs_of_back hcount hback (Nat.le_refl (k + 1))
  have hsame : course.docs (k + 1) = text := by
    refine Text.eq_of_returnsAt (course.map_bare_docs hcount hback (Nat.le_refl (k + 1)))
      (course.finalEnding_docs_of_back hcount hback (Nat.le_refl (k + 1))) ?_
    intro i hi
    rw [hlength] at hi
    cases hlast : text.splitLines.length with
    | zero => omega
    | succ last => exact course.returnsAt_docs hcount hback hlast i (by omega)
  have hrun := course.runs (k + 1) (Nat.le_refl _)
  have hsettled := course.settled
  rw [hsame] at hrun hsettled
  exact ⟨course.passes (k + 1), hrun, hsettled⟩

end Course
end Reindent
