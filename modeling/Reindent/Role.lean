import Reindent.Text.Basic

/-!
# Reindent.Role

What a key can hold below it.
-/

namespace Reindent

inductive Role where
  /-- The task list of a play, such as `tasks:`. -/
  | sectionTasks
  /-- A task list inside a task, such as `block:`. -/
  | blockTasks
  /-- A plain sequence, such as the value of `tags:`. -/
  | listValue
  /-- The arguments of a module. -/
  | moduleArgs
  deriving DecidableEq, Repr

namespace Role

/-- Nothing opens a further frame below a leaf. -/
def isLeaf : Role → Bool
  | listValue | moduleArgs => true
  | sectionTasks | blockTasks => false

/-- The children are sequence items. -/
def holdsItems : Role → Bool
  | moduleArgs => false
  | sectionTasks | blockTasks | listValue => true

/-- The items are tasks with keys of their own. -/
def holdsTasks : Role → Bool
  | sectionTasks | blockTasks => true
  | listValue | moduleArgs => false

def name : Role → String
  | sectionTasks => "section"
  | blockTasks => "block"
  | listValue => "list"
  | moduleArgs => "module-args"

end Role

end Reindent
