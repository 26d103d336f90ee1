/-!
# Reindent.Text.Basic

Texts as lists of characters.

* `isBlank`   — the Unicode property `White_Space`.
* `trimStart`, `trimEnd`, `trim` — drop blanks at the ends.
* `ofBytes?`, `toBytes` — texts in UTF-8.
* `width`     — the length of a text in UTF-8 bytes, the unit of every column.
* `spaces`    — an indentation.
-/

namespace Reindent

/-- A text is the list of its characters. -/
abbrev Text := List Char

namespace Text

/-- Code points with the property `White_Space`, as inclusive ranges in ascending order. -/
def blankRanges : List (Nat × Nat) :=
  [(0x09, 0x0D), (0x20, 0x20), (0x85, 0x85), (0xA0, 0xA0), (0x1680, 0x1680), (0x2000, 0x200A),
    (0x2028, 0x2029), (0x202F, 0x202F), (0x205F, 0x205F), (0x3000, 0x3000)]

/-- The character has the property `White_Space`. -/
def isBlank (c : Char) : Bool :=
  blankRanges.any fun (first, last) => first ≤ c.toNat && c.toNat ≤ last

def trimStart (t : Text) : Text :=
  t.dropWhile isBlank

def trimEnd (t : Text) : Text :=
  (t.reverse.dropWhile isBlank).reverse

def trim (t : Text) : Text :=
  trimEnd (trimStart t)

/-- The text that bytes in UTF-8 stand for. -/
def ofBytes? (bytes : ByteArray) : Option Text :=
  (String.fromUTF8? bytes).map String.toList

/-- The bytes of the text in UTF-8. -/
def toBytes (t : Text) : ByteArray :=
  (String.ofList t).toUTF8

/-- The number of bytes of the text in UTF-8. -/
def width : Text → Nat
  | [] => 0
  | c :: t => c.utf8Size + width t

/-- An indentation of `n` columns. -/
def spaces (n : Nat) : Text :=
  List.replicate n ' '

/-- The number of leading spaces. -/
def indent (t : Text) : Nat :=
  (t.takeWhile (· == ' ')).length

@[simp] theorem width_nil : width [] = 0 := rfl

@[simp] theorem width_cons (c : Char) (t : Text) : width (c :: t) = c.utf8Size + width t := rfl

@[simp] theorem width_append (s t : Text) : width (s ++ t) = width s + width t := by
  induction s with
  | nil => simp
  | cons c s ih => simp [ih, Nat.add_assoc]

theorem spaces_indent_append (t : Text) : spaces (indent t) ++ t.drop (indent t) = t := by
  induction t with
  | nil => rfl
  | cons c t ih =>
    by_cases h : c = ' '
    · subst h
      simpa [spaces, indent, List.replicate_succ] using ih
    · simp [spaces, indent, h]

end Text

end Reindent
