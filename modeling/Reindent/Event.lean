import Reindent.Role
import Reindent.Fault

/-!
# Reindent.Event

What the engine tells about its work.
-/

namespace Reindent

inductive Event where
  | tabIndentation (line : Nat)
  | alreadySet (line : Nat) (key frameKey : Text)
  | stranded (line : Nat) (key : Text) (role : Role) (frameKey : Text)
  | moved (line : Nat) (key origin : Text) (indent : Nat)
  | opened (role : Role) (key : Text) (base column : Nat)
  | openAtEnd (key : Text) (count base : Nat)
  /-- A pass over the result of the passes before it changed more lines. -/
  | settling (pass lines : Nat)
  /-- The document was given back as it was. -/
  | givenUp (fault : Fault)
  deriving DecidableEq, Repr

namespace Event

def message : Event → String
  | tabIndentation line => s!"line {line}: tab in indentation, passing through"
  | alreadySet line key frameKey =>
    s!"line {line}: `{String.ofList key}` already set on its task, left in " ++
      s!"`{String.ofList frameKey}`"
  | stranded line key role frameKey =>
    s!"line {line}: `{String.ofList key}` stranded in {role.name} `{String.ofList frameKey}`, " ++
      s!"relocating"
  | moved line key origin indent =>
    s!"line {line}: `{String.ofList key}` moved out of `{String.ofList origin}` to indent {indent}"
  | opened role key base column =>
    s!"open {role.name} `{String.ofList key}` at {base} (input {column})"
  | openAtEnd key count base =>
    s!"`{String.ofList key}` open at end of document, emitting {count} relocated line(s) at {base}"
  | settling pass lines => s!"pass {pass} moved {lines} more line(s)"
  | givenUp fault => s!"{fault.message}; document left unchanged"

end Event

end Reindent
