import Reindent.Proofs.Pass.BlockText

/-!
# Reindent.Proofs.Pass.Outside

The lines that take part in the structure, read off the document.

* `outside` — the lines outside block scalars, without blank lines and comments.
* `isStructural_eq` — a pass treats these lines, and no others, as lines of the structure.
-/

namespace Reindent

/-- The line takes part in the structure, below lines that leave the text of the given opener
open. -/
def RawLine.isOutside (opener : Option Nat) (raw : RawLine) : Bool :=
  !opener.any raw.isTextOf && (Line.ofText raw.body).isStructural

/-- The lines that take part in the structure, below lines that leave the text of the given opener
open. -/
def outside : Option Nat → List RawLine → List Line
  | _, [] => []
  | opener, raw :: rest =>
    if raw.isOutside opener then Line.ofText raw.body :: outside (openAfter opener raw) rest
    else outside (openAfter opener raw) rest

variable {P : Line → Prop} {opener : Option Nat} {raw : RawLine} {rest : List RawLine}

theorem forall_outside_cons (h : ∀ line ∈ outside opener (raw :: rest), P line) :
    (raw.isOutside opener = true → P (Line.ofText raw.body)) ∧
      ∀ line ∈ outside (openAfter opener raw) rest, P line := by
  rw [outside] at h
  split at h
  · exact ⟨fun _ => (List.forall_mem_cons.1 h).1, (List.forall_mem_cons.1 h).2⟩
  · rename_i hout
    exact ⟨fun houtside => absurd houtside hout, h⟩

/-- A line of the structure that opens no block scalar has nothing open below it. -/
theorem openAfter_of_not_blockScalar (hout : raw.isOutside opener = true)
    (hscalar : (Line.ofText raw.body).blockScalar = false) : openAfter opener raw = none := by
  simp only [RawLine.isOutside, Bool.and_eq_true, Bool.not_eq_true'] at hout
  simp [openAfter, hout.1, RawLine.opens?, hscalar]

namespace Pass.Visit

theorem isStructural_eq {visit : Visit} (hline : visit.input.line = Line.ofText raw.body) :
    visit.isStructural = raw.isOutside (visit.state.body.map ScalarBody.opener) := by
  rw [isStructural, RawLine.isOutside, isText_eq hline, hline]

end Pass.Visit
end Reindent
