import Reindent.Text.Basic

/-!
# Reindent.Text.Number

Natural numbers in texts.

* `digit?`      — the value of a digit in a base up to 16.
* `numeral?`    — the value of a text of such digits.
* `wordLimit`   — the bound of machine words.
* `word?`       — a decimal number below the bound, with or without a plus sign.
-/

namespace Reindent

namespace Text

/-- The value of `c` as a digit in base `base`, which is at most 16. Letters may be in either
case. -/
def digit? (base : Nat) (c : Char) : Option Nat :=
  let value :=
    if '0' ≤ c && c ≤ '9' then c.toNat - '0'.toNat
    else if 'a' ≤ c && c ≤ 'f' then c.toNat - 'a'.toNat + 10
    else if 'A' ≤ c && c ≤ 'F' then c.toNat - 'A'.toNat + 10
    else base
  if value < base then some value else none

def isDigit (c : Char) : Bool :=
  '0' ≤ c && c ≤ '9'

/-- The value of a text of at least one digit in base `base`. -/
def numeral? (base : Nat) (t : Text) : Option Nat :=
  if t.isEmpty then none
  else t.foldlM (fun value c => (digit? base c).map (value * base + ·)) 0

/-- Machine words are the numbers below this. -/
def wordLimit : Nat := Nat.pow 2 64

/-- The number, if it is a machine word. -/
def asWord? (n : Nat) : Option Nat :=
  if n < wordLimit then some n else none

/-- A machine word in decimal, with or without a plus sign. -/
def word? (t : Text) : Option Nat :=
  (numeral? 10 ((['+'].isPrefixOf? t).getD t)).bind asWord?

end Text

end Reindent
