import Reindent.Proofs.Document.Leaves
import Reindent.Proofs.Text.Terminators

/-!
# Reindent.Proofs.Document.Idempotence

What a second repair does to a repaired document.

* `Pass.text_eq_iff` — a pass that keeps every line but for its end leaves the document as it is if
  it keeps the ends as well.
* `idempotent_iff`   — a pass over a repaired document keeps every line but for its end, and a
  second repair leaves the document as it is exactly if that pass keeps the ends as well.
* `not_idempotent`   — in a repaired document, two lines with different ends change places.
-/

namespace Reindent
namespace Pass

variable {registry : Registry} {text : Text} {pass : Pass}

theorem text_eq_iff (h : run registry text = .ok pass) (hkeeps : pass.Keeps text) :
    pass.text text = text ↔ (pass.text text).terminators = text.terminators := by
  constructor
  · intro hsame
    rw [hsame]
  · intro hends
    have hlength := congrArg List.length hends
    rw [Text.terminators, Text.terminators, List.length_map, List.length_map] at hlength
    exact Text.eq_of_terminators (hkeeps.map_bare_text h hlength) hends

theorem return_not_mem_rawLines (h : run registry text = .ok pass) (htext : '\r' ∉ text) :
    ∀ line ∈ pass.rawLines, '\r' ∉ line.text := by
  intro line hline
  obtain ⟨out, hout, rfl⟩ := List.mem_map.1 hline
  obtain ⟨_, raw, _, hraw, hending, _⟩ := raw_of_mem_run h hout
  have hlines : ∀ line ∈ text.splitLines, '\r' ∉ line.body ∧ line.ending ≠ .crlf :=
    fun line hline => RawLine.return_not_mem_iff.1 (Text.return_not_mem_text htext hline)
  refine RawLine.return_not_mem_iff.2 ⟨?_, ?_⟩
  · exact not_mem_run h (by decide) (fun line hline => (hlines line hline).1) out hout
  · rw [hending]
    exact (hlines raw (List.mem_of_getElem? hraw)).2

theorem return_not_mem_joined (h : run registry text = .ok pass) (htext : '\r' ∉ text)
    {model : Text} (hmodel : '\r' ∉ model) : '\r' ∉ joinLines model pass.rawLines :=
  Text.return_not_mem_joinLines hmodel (return_not_mem_rawLines h htext)

theorem text_eq_of_keeps (h : run registry text = .ok pass) (hkeeps : pass.Keeps text)
    (htext : '\r' ∉ text) : pass.text text = text := by
  have hcore : ∀ lines : List RawLine, (∀ line ∈ lines, '\r' ∉ line.text) →
      lines.map RawLine.body = (lines.map RawLine.bare).map RawLine.body := by
    intro lines hlines
    rw [List.map_map]
    refine List.map_congr_left fun line hline => ?_
    exact (Text.core_of_not_mem (RawLine.return_not_mem_iff.1 (hlines line hline)).1).symm
  have hraw := return_not_mem_rawLines h htext
  have hsplit : ∀ line ∈ text.splitLines, '\r' ∉ line.text :=
    fun _ hline => Text.return_not_mem_text htext hline
  have hbody : pass.rawLines.map RawLine.body = text.splitLines.map RawLine.body := by
    rw [hcore _ hraw, keeps_iff.1 hkeeps, ← hcore _ hsplit]
  have hjoined := Text.joinLines_of_lf (Text.commonEnding_of_not_mem htext)
    (fun line hline => (RawLine.return_not_mem_iff.1 (hraw line hline)).2)
    (fun line hline => (RawLine.return_not_mem_iff.1 (hsplit line hline)).2) hbody
  exact hjoined.trans (Text.joinLines_splitLines text)

end Pass

theorem Course.return_not_mem {registry : Registry} {text : Text} {k : Nat}
    (course : Course registry text k) (htext : '\r' ∉ text) {j : Nat} (hj : j ≤ k) :
    '\r' ∉ course.docs j := by
  induction j with
  | zero =>
    rw [course.start]
    exact htext
  | succ j ih =>
    have hdoc := ih (Nat.le_of_succ_le hj)
    rw [course.next j (Nat.le_of_succ_le hj)]
    exact Pass.return_not_mem_joined (course.runs j (by omega)) hdoc hdoc

/-! ### Twice -/

namespace Engine

variable {engine : Engine} {text : Text} {repaired : Repair}

/-- A pass over a repaired document without a marker of its own keeps every line but for its end. -/
theorem keeps_of_repair (h : engine.repair text = .ok repaired)
    (hunmarked : repaired.stats.documentStart = false) :
    ∃ pass, Pass.run engine.registry repaired.text = .ok pass ∧ pass.Keeps repaired.text := by
  obtain ⟨k, course, hcount, hresult⟩ := course_of_unmarked h hunmarked
  rw [hresult]
  exact course.keeps_result hcount

theorem return_not_mem_repair (h : engine.repair text = .ok repaired) (htext : '\r' ∉ text) :
    '\r' ∉ repaired.text := by
  obtain ⟨k, course, _, hresult, _⟩ := course_of_repair h
  rw [hresult]
  refine Text.return_not_mem_joinLines htext fun line hline => ?_
  rcases List.mem_append.1 hline with hmarker | hline
  · split at hmarker
    · obtain rfl := List.mem_singleton.1 hmarker
      decide
    · cases hmarker
  · exact Pass.return_not_mem_rawLines (course.runs k (Nat.le_succ k))
      (course.return_not_mem htext (Nat.le_refl k)) line hline

theorem transform_eq_iff (engine : Engine) (text : Text) :
    ((engine.transform text).text = text ∧ (engine.transform text).changed = false) ↔
      engine.Leaves text ∨ ∃ failure, engine.repair text = .error failure := by
  unfold transform Leaves
  cases hrepair : engine.repair text with
  | error failure => simp
  | ok repaired => simp

/-- A pass over a repaired document keeps every line but for its end. A second repair leaves the
document as it is exactly if that pass keeps the ends as well, which it does where there are no
carriage returns. -/
theorem idempotent_iff (registry : Registry) (text : Text) :
    (∀ repaired, repair { registry } text = .ok repaired →
      ∃ pass, Pass.run registry repaired.text = .ok pass ∧ pass.Keeps repaired.text ∧
        (Leaves { registry } repaired.text ↔
          (pass.text repaired.text).terminators = repaired.text.terminators) ∧
        ('\r' ∉ text → Leaves { registry } repaired.text)) ∧
    (let once := transform { registry } text
     let twice := transform { registry } once.text
     (twice.text = once.text ∧ twice.changed = false) ↔
       ∀ repaired, repair { registry } text = .ok repaired →
         Leaves { registry } repaired.text ∨
           ∃ failure, repair { registry } repaired.text = .error failure) := by
  constructor
  · intro repaired hrepair
    have hunmarked := unmarked_of_repair hrepair rfl
    obtain ⟨pass, hrun, hkeeps⟩ := keeps_of_repair hrepair hunmarked
    have hsettled : Settled registry repaired.text ↔ pass.text repaired.text = repaired.text := by
      constructor
      · rintro ⟨pass', hrun', hsame⟩
        obtain rfl : pass' = pass := Except.ok.inj (hrun'.symm.trans hrun)
        exact hsame
      · exact fun hsame => ⟨pass, hrun, hsame⟩
    refine ⟨pass, hrun, hkeeps, ?_, ?_⟩
    · rw [leaves_iff_settled, hsettled, Pass.text_eq_iff hrun hkeeps]
    · intro htext
      rw [leaves_iff_settled, hsettled]
      exact Pass.text_eq_of_keeps hrun hkeeps (return_not_mem_repair hrepair htext)
  · intro once twice
    rw [transform_eq_iff]
    cases hrepair : repair { registry } text with
    | error failure =>
      have honce : once.text = text := by
        simp only [once, transform, hrepair]
      rw [honce, hrepair]
      simp
    | ok repaired =>
      have honce : once.text = repaired.text := by
        simp only [once, transform, hrepair]
      rw [honce]
      simp

theorem idempotent_iff_nudged :
    ∃ repaired, repair {} nudged = .ok repaired ∧ repaired.changed = true ∧
      Leaves {} repaired.text := by
  have hok : (repair {} nudged).toOption.any Repair.changed = true := by decide +kernel
  cases hrepair : repair {} nudged with
  | error failure => simp [hrepair, Except.toOption] at hok
  | ok repaired =>
    rw [hrepair] at hok
    obtain ⟨_, _, _, _, hleaves⟩ := (idempotent_iff Registry.standard nudged).1 repaired hrepair
    exact ⟨repaired, rfl, hok, hleaves (by decide +kernel)⟩

/-- A second repair changes the document again. -/
def changesAgain (engine : Engine) (text : Text) : Bool :=
  (engine.repair text).toOption.any fun repaired =>
    (engine.repair repaired.text).toOption.any fun again =>
      again.changed && again.text != repaired.text

theorem exists_of_changesAgain {engine : Engine} {text : Text}
    (h : engine.changesAgain text = true) :
    ∃ repaired again, engine.repair text = .ok repaired ∧
      engine.repair repaired.text = .ok again ∧ again.changed = true ∧
        again.text ≠ repaired.text := by
  unfold changesAgain at h
  cases hrepair : engine.repair text with
  | error failure => simp [hrepair, Except.toOption] at h
  | ok repaired =>
    cases hagain : engine.repair repaired.text with
    | error failure => simp [hrepair, hagain, Except.toOption] at h
    | ok again =>
      simp only [hrepair, hagain, Except.toOption, Option.any_some, Bool.and_eq_true,
        bne_iff_ne] at h
      exact ⟨repaired, again, rfl, hagain, h.1, h.2⟩

/-- In the repaired document, two attributes change places. They are equal up to their ends. -/
def swapped : Text :=
  ("tasks:\n  -    name: x\n       tags:\n         retries: 1\n   - tags:\n       retries: 1\n" ++
    "       foo\r").toList

theorem not_idempotent :
    ∃ repaired again, repair {} swapped = .ok repaired ∧ repair {} repaired.text = .ok again ∧
      again.changed = true ∧ again.text ≠ repaired.text := by
  have hagain : changesAgain {} swapped = true := by decide +kernel
  exact exists_of_changesAgain hagain

end Engine
end Reindent
