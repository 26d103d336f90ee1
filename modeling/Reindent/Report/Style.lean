/-!
# Reindent.Report.Style

Colours of a terminal.

* `Style.paint` — text between the control sequences of a style; unchanged where colours are off.
-/

namespace Reindent

inductive Colour where
  | red
  | green
  | yellow
  | blue
  | cyan
  | grey
  deriving DecidableEq, Repr

namespace Colour

/-- The number that selects the colour for text. -/
def code : Colour → Nat
  | red => 31
  | green => 32
  | yellow => 33
  | blue => 34
  | cyan => 36
  | grey => 90

end Colour

structure Style where
  colour : Option Colour := none
  bold : Bool := false
  deriving DecidableEq, Repr

namespace Style

/-- The control sequence with the number `n`. -/
def sequence (n : Nat) : String :=
  "\x1b[" ++ toString n ++ "m"

/-- `text` in the style, if `enabled`. Bold stands outside the colour. -/
def paint (style : Style) (enabled : Bool) (text : String) : String :=
  if !enabled then text
  else
    let coloured :=
      match style.colour with
      | some colour => sequence colour.code ++ text ++ sequence 39
      | none => text
    if style.bold then sequence 1 ++ coloured ++ sequence 0 else coloured

end Style

end Reindent
