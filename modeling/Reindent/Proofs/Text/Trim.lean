import Reindent.Text.Lines
import Mathlib.Data.List.DropRight

/-!
# Reindent.Proofs.Text.Trim

What trimming a text does not see.

* `trim_append_return`  — a carriage return at the end.
* `trim_spaces_append`  — an indentation.
* `trimStart_append`, `trimEnd_append` — any blanks at the ends.
* `exists_blanks_trimStart`, `exists_blanks_trimEnd` — nothing but blanks is taken off.
* `Text.contents`       — the lines of a document that are not blank, trimmed.
-/

namespace Reindent
namespace Text

theorem isBlank_space : isBlank ' ' = true := by decide

theorem isBlank_return : isBlank '\r' = true := by decide

variable {blanks t : Text} {c : Char}

theorem trimStart_append (h : ∀ c ∈ blanks, isBlank c = true) (t : Text) :
    trimStart (blanks ++ t) = trimStart t :=
  List.dropWhile_append_of_pos h

theorem trimStart_of_not_blank (h : isBlank c = false) (t : Text) : trimStart (c :: t) = c :: t :=
  List.dropWhile_cons_of_neg (by rw [h]; exact Bool.false_ne_true)

/-- What is trimmed off in front is blank. -/
theorem exists_blanks_trimStart (t : Text) :
    ∃ blanks, (∀ c ∈ blanks, isBlank c = true) ∧ t = blanks ++ trimStart t :=
  ⟨t.takeWhile isBlank, fun _ h => List.mem_takeWhile_imp h, List.takeWhile_append_dropWhile.symm⟩

/-- What is trimmed off at the end is blank. -/
theorem exists_blanks_trimEnd (t : Text) :
    ∃ blanks, (∀ c ∈ blanks, isBlank c = true) ∧ t = trimEnd t ++ blanks :=
  ⟨t.rtakeWhile isBlank, fun _ h => List.mem_rtakeWhile_imp h,
    List.rdropWhile_append_rtakeWhile.symm⟩

theorem trimEnd_append (h : ∀ c ∈ blanks, isBlank c = true) (t : Text) :
    trimEnd (t ++ blanks) = trimEnd t := by
  rw [trimEnd, trimEnd, List.reverse_append, List.dropWhile_append_of_pos]
  exact fun c hc => h c (List.mem_reverse.1 hc)

theorem trimEnd_eq_rdropWhile (t : Text) : trimEnd t = t.rdropWhile isBlank := rfl

theorem trimEnd_eq_self_iff : trimEnd t = t ↔ ∀ c, t.getLast? = some c → isBlank c = false := by
  rw [trimEnd_eq_rdropWhile, List.rdropWhile_eq_self_iff]
  constructor
  · intro h c hlast
    obtain ⟨init, rfl⟩ := List.getLast?_eq_some_iff.1 hlast
    simpa using h (by simp)
  · intro h hne
    simpa using h _ (List.getLast?_eq_some_getLast hne)

theorem trimEnd_trimEnd (t : Text) : trimEnd (trimEnd t) = trimEnd t :=
  List.rdropWhile_idempotent isBlank t

/-- Trimming the end stops at a character that is not blank. -/
theorem trimEnd_append_of_not_blank (h : isBlank c = false) (s t : Text) :
    trimEnd (s ++ c :: t) = s ++ c :: trimEnd t := by
  obtain ⟨blanks, hblanks, ht⟩ := exists_blanks_trimEnd t
  have hkept : trimEnd (s ++ c :: trimEnd t) = s ++ c :: trimEnd t := by
    refine trimEnd_eq_self_iff.2 fun d hlast => ?_
    rw [List.getLast?_append, List.getLast?_cons] at hlast
    cases hend : (trimEnd t).getLast? with
    | none =>
      rw [hend] at hlast
      cases hlast
      exact h
    | some e =>
      rw [hend] at hlast
      cases hlast
      exact trimEnd_eq_self_iff.1 (trimEnd_trimEnd t) e hend
  have hsplit : s ++ c :: t = s ++ c :: trimEnd t ++ blanks := by
    rw [List.append_assoc, List.cons_append, ← ht]
  rw [hsplit, trimEnd_append hblanks, hkept]

theorem trim_append (h : ∀ c ∈ blanks, isBlank c = true) (t : Text) :
    trim (blanks ++ t) = trim t := by
  rw [trim, trimStart_append h, trim]

theorem trimEnd_append_blank {c : Char} (hc : isBlank c = true) (t : Text) :
    trimEnd (t ++ [c]) = trimEnd t :=
  trimEnd_append (by simpa using hc) t

theorem trim_append_blank {c : Char} (hc : isBlank c = true) (t : Text) :
    trim (t ++ [c]) = trim t := by
  rw [trim, trimStart, List.dropWhile_append]
  split
  · rename_i h
    have hnil : t.dropWhile isBlank = [] := by simpa using h
    simp [trim, trimStart, trimEnd, hnil, hc]
  · rw [trimEnd_append_blank hc, trim, trimStart]

theorem trim_append_return (t : Text) : trim (t ++ ['\r']) = trim t :=
  trim_append_blank isBlank_return t

@[simp] theorem trim_spaces_append (n : Nat) (t : Text) : trim (spaces n ++ t) = trim t :=
  trim_append (fun _ hc => List.eq_of_mem_replicate hc ▸ isBlank_space) t

/-- The trimmed lines of `t`, without the blank ones. -/
def contents (t : Text) : List Text :=
  (t.lines.map trim).filter fun line => !line.isEmpty

end Text
end Reindent
