import Reindent.Text.Basic

/-!
# Reindent.Glob.Basic

Patterns for paths.

* `Glob.parse`   — reads a pattern: `?`, `*`, `**` between slashes, `[a-z]`, `[!a-z]`.
* `Glob.accepts` — a text fits a pattern. No character is special in the text: `*` and `?` take
  slashes and leading dots too.
-/

namespace Reindent

namespace Glob

/-- A part of a class: a character, or a range. -/
structure Span where
  first : Char
  last : Char
  deriving DecidableEq, Repr

inductive Token where
  | char (c : Char)
  /-- `?` -/
  | anyChar
  /-- `*` -/
  | anySequence
  /-- `**`, which takes whole components. -/
  | anyComponents
  | within (spans : List Span)
  | except (spans : List Span)
  deriving DecidableEq, Repr

inductive Defect where
  | longStars
  | crowdedStars
  | brokenClass
  deriving DecidableEq, Repr

/-- What is wrong with a pattern, and at which character. -/
structure Error where
  position : Nat
  defect : Defect
  deriving DecidableEq, Repr

namespace Error

def reason : Defect → String
  | .longStars => "wildcards are either regular `*` or recursive `**`"
  | .crowdedStars => "recursive wildcards must form a single path component"
  | .brokenClass => "invalid range pattern"

def message (error : Error) : String :=
  s!"Pattern syntax error near position {error.position}: {reason error.defect}"

end Error

/-! ### Reading -/

/-- The parts of a class. A dash between two characters makes a range. -/
def spans : Text → List Span
  | a :: '-' :: b :: rest => ⟨a, b⟩ :: spans rest
  | a :: rest => ⟨a, a⟩ :: spans rest
  | [] => []

/-- The class whose opening bracket stands before `rest`, and the number of its characters after
that bracket. The first character of a class can be a closing bracket. -/
def readClass? (rest : Text) : Option (Token × Nat) :=
  let (negated, body) :=
    match rest with
    | '!' :: body => (true, body)
    | body => (false, body)
  match body with
  | [] => none
  | first :: others =>
    let inner := others.takeWhile (· != ']')
    if inner.length < others.length then
      let found := spans (first :: inner)
      some (if negated then .except found else .within found,
        inner.length + 2 + if negated then 1 else 0)
    else none

/-- Adds `**`, unless it follows another one. -/
def addAnyComponents (tokens : List Token) : List Token :=
  match tokens with
  | .anyComponents :: _ :: _ => tokens
  | _ => .anyComponents :: tokens

/-- A run of `count` stars at `position`, with `before` in front of it and `after` behind it: the
tokens with it, and how many characters it takes. Two stars take the slash behind them. -/
def readStars (position count : Nat) (before : Option Char) (after : Text)
    (tokens : List Token) : Except Error (List Token × Nat) :=
  if count > 2 then .error ⟨position + 2, .longStars⟩
  else if count < 2 then .ok (.anySequence :: tokens, 1)
  else if before.any (· != '/') then .error ⟨position - 1, .crowdedStars⟩
  else
    match after with
    | [] => .ok (addAnyComponents tokens, 2)
    | '/' :: _ => .ok (addAnyComponents tokens, 3)
    | _ => .error ⟨position + 2, .crowdedStars⟩

/-- Reads on at `position`, after the character `before`. The next `skip` characters belong to
what has been read; `tokens` holds that, newest first. -/
def parseFrom (skip position : Nat) (before : Option Char) (tokens : List Token) :
    Text → Except Error (List Token)
  | [] => .ok tokens.reverse
  | c :: rest =>
    match skip with
    | skip + 1 => parseFrom skip (position + 1) (some c) tokens rest
    | 0 =>
      match c with
      | '?' => parseFrom 0 (position + 1) (some c) (.anyChar :: tokens) rest
      | '*' =>
        let stars := (rest.takeWhile (· == '*')).length
        match readStars position (stars + 1) before (rest.drop stars) tokens with
        | .ok (tokens, taken) => parseFrom (taken - 1) (position + 1) (some c) tokens rest
        | .error e => .error e
      | '[' =>
        match readClass? rest with
        | some (token, taken) => parseFrom taken (position + 1) (some c) (token :: tokens) rest
        | none => .error ⟨position, .brokenClass⟩
      | c => parseFrom 0 (position + 1) (some c) (.char c :: tokens) rest

/-- Reads a pattern. -/
def parse (pattern : Text) : Except Error (List Token) :=
  parseFrom 0 0 none [] pattern

/-! ### Matching -/

def contains (spans : List Span) (c : Char) : Bool :=
  spans.any fun span => span.first ≤ c && c ≤ span.last

/-- A single character fits the token. -/
def fits (token : Token) (c : Char) : Bool :=
  match token with
  | .char d => c == d
  | .anyChar => true
  | .within spans => contains spans c
  | .except spans => !contains spans c
  | .anySequence | .anyComponents => false

inductive Verdict where
  | fits
  | differs
  /-- The text ended before the pattern did, so taking more of it earlier cannot help. -/
  | tooShort
  deriving DecidableEq, Repr

/-- Tries the rests of a text from the longest on: each of them, or only those after a slash and
the empty one. -/
def tryRests (components : Bool) (attempt : Text → Verdict) : Text → Verdict
  | [] => attempt []
  | c :: rest =>
    if components && c != '/' then tryRests components attempt rest
    else
      match attempt rest with
      | .differs => tryRests components attempt rest
      | verdict => verdict

/-- Compares a text with a pattern. -/
def judge : List Token → Text → Verdict
  | [], [] => .fits
  | [], _ :: _ => .differs
  | token :: tokens, text =>
    let sequence (components : Bool) : Verdict :=
      match judge tokens text with
      | .differs => tryRests components (judge tokens) text
      | verdict => verdict
    match token with
    | .anySequence => sequence false
    | .anyComponents => sequence true
    | token =>
      match text with
      | [] => .tooShort
      | c :: rest => if fits token c then judge tokens rest else .differs

/-- `text` fits the pattern. -/
def accepts (tokens : List Token) (text : Text) : Bool :=
  judge tokens text == .fits

end Glob

end Reindent
