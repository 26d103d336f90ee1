import Reindent.Text.Fields
import Reindent.Text.Number

/-!
# Reindent.Toml.Lexical

The small parts of TOML documents. Each reader gives what it read and the text behind it.

* `skipBlanks`, `skipTrivia`, `lineEnd?` — what stands between things.
* `quoted?`     — strings, in their four forms.
* `dottedKey?`  — keys.
* `integer?`, `float?`, `moment?` — what a word without quotes stands for.
-/

namespace Reindent

namespace Toml

/-! ### Between things -/

def isBlank (c : Char) : Bool :=
  c == ' ' || c == '\t'

/-- Control characters, which stand nowhere in a document but for tabs and line breaks. -/
def isControl (c : Char) : Bool :=
  (c.toNat < 0x20 && c != '\t') || c.toNat == 0x7F

def skipBlanks (text : Text) : Text :=
  text.dropWhile isBlank

/-- The text behind a line break. -/
def newline? : Text → Option Text
  | '\n' :: rest => some rest
  | '\r' :: '\n' :: rest => some rest
  | _ => none

/-- Skips blanks, line breaks and comments, the flag telling that a comment has begun. -/
def skipTriviaFrom : Bool → Text → Option Text
  | _, [] => some []
  | _, '\n' :: rest => skipTriviaFrom false rest
  | _, '\r' :: '\n' :: rest => skipTriviaFrom false rest
  | true, c :: rest => if isControl c then none else skipTriviaFrom true rest
  | false, c :: rest =>
    if isBlank c then skipTriviaFrom false rest
    else if c == '#' then skipTriviaFrom true rest
    else some (c :: rest)

/-- Skips blanks, line breaks and comments. -/
def skipTrivia (text : Text) : Option Text :=
  skipTriviaFrom false text

/-- The text behind the end of a line that holds no more than a comment. -/
def lineEnd? (text : Text) : Option Text :=
  match skipBlanks text with
  | [] => some []
  | '#' :: rest =>
    let behind := rest.dropWhile fun c => !isControl c
    if behind.isEmpty then some [] else newline? behind
  | rest => newline? rest

/-! ### Strings -/

/-- The character with the code that the hexadecimal digits give. -/
def codePoint? (digits : Text) : Option Char := do
  let n ← Text.numeral? 16 digits
  if n.isValidChar then some (Char.ofNat n) else none

/-- Reads a code of `count` digits. -/
def code? (count : Nat) (text : Text) : Option (Char × Text) := do
  guard (count ≤ text.length)
  return (← codePoint? (text.take count), text.drop count)

/-- Reads what follows a backslash. -/
def escape? : Text → Option (Char × Text)
  | 'b' :: rest => some ('\x08', rest)
  | 't' :: rest => some ('\t', rest)
  | 'n' :: rest => some ('\n', rest)
  | 'f' :: rest => some ('\x0c', rest)
  | 'r' :: rest => some ('\r', rest)
  | 'e' :: rest => some ('\x1b', rest)
  | '"' :: rest => some ('"', rest)
  | '\\' :: rest => some ('\\', rest)
  | 'x' :: rest => code? 2 rest
  | 'u' :: rest => code? 4 rest
  | 'U' :: rest => code? 8 rest
  | _ => none

/-- The text behind a backslash at the end of a line: blanks and line breaks are skipped. -/
def continuedLine? (text : Text) : Option Text := do
  let behind ← newline? (skipBlanks text)
  return behind.dropWhile fun c => isBlank c || c == '\n' || c == '\r'

/-- Puts a character in front of what was read. -/
def prepend (c : Char) (read : Text × Text) : Text × Text :=
  (c :: read.1, read.2)

/-- Reads on in a string on one line up to the quote `q`. -/
def lineBody? (q : Char) : Nat → Text → Option (Text × Text)
  | 0, _ => none
  | _ + 1, [] => none
  | fuel + 1, c :: rest =>
    if c == q then some ([], rest)
    else if c == '\\' && q == '"' then do
      let (escaped, rest) ← escape? rest
      (lineBody? q fuel rest).map (prepend escaped)
    else if isControl c then none
    else (lineBody? q fuel rest).map (prepend c)

/-- Reads on in a string on many lines up to three quotes `q`. Up to two quotes in front of
these belong to the string. -/
def blockBody? (q : Char) : Nat → Text → Option (Text × Text)
  | 0, _ => none
  | _ + 1, [] => none
  | fuel + 1, c :: rest =>
    let quotes := ((c :: rest).takeWhile (· == q)).length
    if quotes ≥ 3 then
      let taken := min quotes 5
      some (List.replicate (taken - 3) q, (c :: rest).drop taken)
    else if c == '\\' && q == '"' then
      match continuedLine? rest with
      | some rest => blockBody? q fuel rest
      | none => do
        let (escaped, rest) ← escape? rest
        (blockBody? q fuel rest).map (prepend escaped)
    else
      match newline? (c :: rest) with
      | some rest => (blockBody? q fuel rest).map (prepend '\n')
      | none => if isControl c then none else (blockBody? q fuel rest).map (prepend c)

/-- Reads a string on one line that starts with `q`. -/
def lineString? (q : Char) (text : Text) : Option (Text × Text) :=
  match text with
  | c :: rest => if c == q then lineBody? q (rest.length + 1) rest else none
  | [] => none

/-- Reads a string that starts with `q`. A line break at its start does not count. -/
def quoted? (q : Char) (text : Text) : Option (Text × Text) :=
  match [q, q, q].isPrefixOf? text with
  | some body =>
    let body := (newline? body).getD body
    blockBody? q (body.length + 1) body
  | none => lineString? q text

/-! ### Keys -/

def isBare (c : Char) : Bool :=
  c.isAlphanum || c == '_' || c == '-'

/-- Reads one part of a key. -/
def simpleKey? (text : Text) : Option (Text × Text) :=
  match text with
  | '"' :: _ => lineString? '"' text
  | '\'' :: _ => lineString? '\'' text
  | _ =>
    let key := text.takeWhile isBare
    if key.isEmpty then none else some (key, text.dropWhile isBare)

/-- Reads a key of `fuel` parts at most, up to the text that follows it. -/
def dottedKeyFrom? : Nat → Text → Option (List Text × Text)
  | 0, _ => none
  | fuel + 1, text => do
    let (part, rest) ← simpleKey? (skipBlanks text)
    match skipBlanks rest with
    | '.' :: rest =>
      let (parts, rest) ← dottedKeyFrom? fuel rest
      return (part :: parts, rest)
    | rest => return ([part], rest)

def dottedKey? (text : Text) : Option (List Text × Text) :=
  dottedKeyFrom? (text.length + 1) text

/-! ### Words -/

/-- A text without its sign, and whether that was a minus. -/
def splitSign (word : Text) : Bool × Text :=
  match word with
  | '-' :: rest => (true, rest)
  | '+' :: rest => (false, rest)
  | rest => (false, rest)

/-- Digits, with single underscores between them. -/
def digits? (base : Nat) (word : Text) : Option Text := do
  let groups := Text.fields '_' word
  guard (groups.all fun group => !group.isEmpty && group.all fun c => (Text.digit? base c).isSome)
  return groups.flatten

/-- Decimal digits that do not start with an idle zero. -/
def decimal? (word : Text) : Option Text := do
  let digits ← digits? 10 word
  guard (digits.length == 1 || digits.head? != some '0')
  return digits

def integer? (word : Text) : Option Int :=
  match word with
  | '0' :: 'x' :: rest => (digits? 16 rest).bind (Text.numeral? 16) |>.map Int.ofNat
  | '0' :: 'o' :: rest => (digits? 8 rest).bind (Text.numeral? 8) |>.map Int.ofNat
  | '0' :: 'b' :: rest => (digits? 2 rest).bind (Text.numeral? 2) |>.map Int.ofNat
  | _ => do
    let (negative, rest) := splitSign word
    let n ← Text.numeral? 10 (← decimal? rest)
    return if negative then -(n : Int) else n

/-- From here on numbers round to no finite number of double precision. -/
def doubleLimit : Nat := Nat.pow 2 1024 - Nat.pow 2 970

/-- The number with the given digits, times ten to the given power, is too large for double
precision. -/
def overflows (digits : Text) (power : Int) : Bool :=
  let digits := digits.dropWhile (· == '0')
  let n := (Text.numeral? 10 digits).getD 0
  let magnitude := (digits.length : Int) + power
  if n == 0 || magnitude < 308 then false
  else if magnitude > 310 then true
  else if power ≥ 0 then n * Nat.pow 10 power.toNat ≥ doubleLimit
  else n ≥ doubleLimit * Nat.pow 10 (-power).toNat

/-- The power of ten in the text after an exponent mark. -/
def exponent? (word : Text) : Option Int := do
  let (negative, rest) := splitSign word
  let n ← Text.numeral? 10 (← digits? 10 rest)
  return if negative then -(n : Int) else n

/-- The word is a number with a fraction, an exponent or both; the answer tells whether it is too
large. -/
def float? (word : Text) : Option Bool := do
  let body := (splitSign word).2
  if body == "inf".toList || body == "nan".toList then return false
  let isMark := fun c => c == 'e' || c == 'E'
  let exponent :=
    match body.dropWhile fun c => !isMark c with
    | [] => none
    | _ :: exponent => some exponent
  let power ← exponent.elim (some 0) exponent?
  match Text.fields '.' (body.takeWhile fun c => !isMark c) with
  | [whole] =>
    guard exponent.isSome
    return overflows (← decimal? whole) power
  | [whole, fraction] =>
    let whole ← decimal? whole
    let fraction ← digits? 10 fraction
    return overflows (whole ++ fraction) (power - fraction.length)
  | _ => none

/-- Reads a number of exactly `count` digits. -/
def fixed? (count : Nat) (text : Text) : Option (Nat × Text) := do
  guard (count ≤ text.length)
  let n ← Text.numeral? 10 (text.take count)
  return (n, text.drop count)

/-- The text behind `c`. -/
def expect? (c : Char) (text : Text) : Option Text :=
  [c].isPrefixOf? text

def daysIn (year month : Nat) : Nat :=
  if month == 2 then if year % 4 == 0 && (year % 100 != 0 || year % 400 == 0) then 29 else 28
  else if month == 4 || month == 6 || month == 9 || month == 11 then 30
  else 31

/-- The text behind a date. -/
def date? (text : Text) : Option Text := do
  let (year, text) ← fixed? 4 text
  let (month, text) ← fixed? 2 (← expect? '-' text)
  let (day, text) ← fixed? 2 (← expect? '-' text)
  guard (1 ≤ month && month ≤ 12 && 1 ≤ day && day ≤ daysIn year month)
  return text

/-- The text behind the seconds of a time and their fraction. -/
def seconds? (text : Text) : Option Text := do
  let (second, text) ← fixed? 2 text
  guard (second ≤ 60)
  match text with
  | '.' :: fraction =>
    guard (fraction.head?.any Text.isDigit)
    return fraction.dropWhile Text.isDigit
  | text => return text

/-- The text behind a time, whose seconds can be left out. -/
def time? (text : Text) : Option Text := do
  let (hour, text) ← fixed? 2 text
  let (minute, text) ← fixed? 2 (← expect? ':' text)
  guard (hour ≤ 23 && minute ≤ 59)
  match text with
  | ':' :: text => seconds? text
  | text => return text

/-- The text is an offset from universal time, or nothing. -/
def isOffset (text : Text) : Bool :=
  match text with
  | [] => true
  | [c] => c == 'Z' || c == 'z'
  | sign :: rest =>
    (sign == '+' || sign == '-') &&
      ((do
        let (hour, rest) ← fixed? 2 rest
        let (minute, rest) ← fixed? 2 (← expect? ':' rest)
        guard (hour ≤ 23 && minute ≤ 59 && rest.isEmpty)) : Option Unit).isSome

/-- The word is a date, a time or both. -/
def isMoment (word : Text) : Bool :=
  match date? word with
  | some [] => true
  | some (c :: rest) =>
    (c == 'T' || c == 't' || c == ' ') && (time? rest).any isOffset
  | none => (time? word).any List.isEmpty

end Toml

end Reindent
