import Reindent.Text.Number

/-!
# Reindent.Proofs.Text.Number

Numbers that are written in decimal and read back.
-/

namespace Reindent
namespace Text

theorem digit?_digitChar {n : Nat} (h : n < 10) : digit? 10 n.digitChar = some n := by
  have hall : ∀ n < 10, digit? 10 (Nat.digitChar n) = some n := by decide
  exact hall n h

theorem isDigit_of_mem_toDigits {n : Nat} {c : Char} (h : c ∈ Nat.toDigits 10 n) :
    isDigit c = true := by
  have hdigit : c.isDigit = true := Nat.isDigit_of_mem_toDigits (by decide) (by decide) h
  simpa [isDigit, Char.isDigit, Char.le_def] using hdigit

theorem numeral?_toDigits (n : Nat) : numeral? 10 (Nat.toDigits 10 n) = some n := by
  have hvalue : (Nat.toDigits 10 n).foldlM
      (fun value c => (digit? 10 c).map (value * 10 + ·)) 0 = some n := by
    induction n using Nat.strongRecOn with
    | ind n ih =>
      rw [Nat.toDigits_eq_if (by decide)]
      split
      · rename_i hn
        simp [digit?_digitChar hn]
      · rename_i hn
        have hlast : n % 10 < 10 := Nat.mod_lt n (by decide)
        rw [List.foldlM_append, ih (n / 10) (by omega)]
        simp only [List.foldlM_cons, List.foldlM_nil, digit?_digitChar hlast, Option.bind_eq_bind,
          Option.bind_some, Option.map_some]
        have hn : n / 10 * 10 + n % 10 = n := by omega
        simp [hn]
  simp [numeral?, hvalue]

end Text
end Reindent
