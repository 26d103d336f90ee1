import Reindent.Event

/-!
# Reindent.Log

Records of what a run does, and which of them are shown.

* `Record`      — a record with its severity and the part of the program that it comes from.
* `Severity.shown` — the severities that are shown at some verbosity.
* `Record.line` — a record as a line of the log.
-/

namespace Reindent

inductive Severity where
  | error
  | warn
  | info
  | debug
  deriving DecidableEq, Repr

namespace Severity

/-- The name, padded to five columns. -/
def label : Severity → String
  | error => "ERROR"
  | warn => "WARN "
  | info => "INFO "
  | debug => "DEBUG"

/-- The severities that are shown if more output is asked for so many times. -/
def shown (verbosity : Nat) : List Severity :=
  match verbosity with
  | 0 => [error, warn]
  | 1 => [error, warn, info]
  | _ => [error, warn, info, debug]

end Severity

/-- The part of the program that a record comes from. -/
inductive Source where
  | program
  | files
  | engine
  | pass
  deriving DecidableEq, Repr

namespace Source

def label : Source → String
  | program => "indentfix"
  | files => "indentfix::fix"
  | engine => "indentfix::engine"
  | pass => "indentfix::engine::rewrite"

end Source

structure Record where
  severity : Severity
  source : Source
  text : String
  deriving DecidableEq, Repr

namespace Record

def ofEvent (event : Event) : Record :=
  match event with
  | .settling .. => ⟨.debug, .engine, event.message⟩
  | .givenUp _ => ⟨.error, .engine, event.message⟩
  | _ => ⟨.debug, .pass, event.message⟩

/-- A line feed in the text, with the indentation of the line that it starts. -/
def indentBreak (c : Char) : Text :=
  if c == '\n' then '\n' :: Text.spaces 4 else [c]

/-- The record as a line of the log, without its line feed. -/
def line (record : Record) : String :=
  s!"[{record.severity.label} {record.source.label}] " ++
    String.ofList (record.text.toList.flatMap indentBreak)

end Record

end Reindent
