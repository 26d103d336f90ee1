import Reindent.Text.Basic

/-!
# Reindent.CommandLine.Basic

What a command line asks for.

* `FixRequest`  — the options of `fix`.
* `Invocation`  — a command with the verbosity of the log.
* `UsageError`  — why a command line names no command, requests for help among the reasons.
-/

namespace Reindent

structure FixRequest where
  paths : List Text := []
  repoRoot : Option Text := none
  write : Bool := false
  diff : Bool := false
  check : Bool := false
  output : Option Text := none
  jobs : Option Nat := none
  documentStart : Bool := false
  deriving DecidableEq, Repr

inductive Command where
  | version
  | fix (request : FixRequest)
  deriving DecidableEq, Repr

structure Invocation where
  verbose : Nat
  command : Command
  deriving DecidableEq, Repr

inductive UsageError where
  | helpRequested
  | versionRequested
  | unknownArgument
  | unknownCommand
  | missingCommand
  /-- The command line says nothing at all. -/
  | nothingGiven
  /-- An option without its value, or an empty path. -/
  | missingValue
  /-- A value that is not of the option's kind. -/
  | malformedValue
  /-- An option that is given twice. -/
  | repeatedOption
  /-- A value for an option that takes none. -/
  | surplusValue
  deriving DecidableEq, Repr

namespace UsageError

/-- A request for help or for the version is answered and is no failure. -/
def isRequest : UsageError → Bool
  | helpRequested | versionRequested => true
  | _ => false

/-- The form of a command line. -/
def usage : String :=
  "usage: indentfix [-v] version | indentfix [-v] fix [OPTIONS] [PATHS]"

def message : UsageError → String
  | helpRequested => usage
  | versionRequested => "indentfix 0.1.0"
  | unknownArgument => "unknown argument"
  | unknownCommand => "unknown command"
  | missingCommand => "a command is missing"
  | nothingGiven => usage
  | missingValue => "a value is missing"
  | malformedValue => "a value is malformed"
  | repeatedOption => "an option is given twice"
  | surplusValue => "an option takes no value"

end UsageError

end Reindent
