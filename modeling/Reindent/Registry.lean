import Reindent.Role

/-!
# Reindent.Registry

Which keys have which role, and which task attributes cannot live where.

* `Registry`           — the tables, with `Registry.standard` for playbooks and task files.
* `Registry.extended`  — the standard tables and a user's additions.
* `Registry.roleOf?`   — the role of a key by its name alone.
* `Registry.isStranded` — an attribute stands where it cannot belong.
-/

namespace Reindent

structure Registry where
  sections : List Text
  blocks : List Text
  lists : List Text
  /-- Modules known by a bare name. -/
  modules : List Text
  /-- Keys of a task, which end module arguments written at the module's own column. -/
  taskKeywords : List Text
  /-- The task attributes, each with the roles it cannot live under. -/
  attributes : List (Text × List Role)
  /-- Lists whose entries are labels, so that an attribute among them belongs to the task. -/
  descriptive : List Text
  deriving DecidableEq, Repr

/-- Keys that a user adds to the standard tables. -/
structure RegistryExtension where
  sections : List Text := []
  blocks : List Text := []
  lists : List Text := []
  modules : List Text := []
  attributes : List Text := []
  descriptive : List Text := []
  deriving DecidableEq, Repr

namespace Registry

def standard : Registry where
  sections := ["tasks", "pre_tasks", "post_tasks", "handlers"].map String.toList
  blocks := ["block", "rescue", "always"].map String.toList
  lists :=
    ["tags", "that", "when", "loop", "notify", "changed_when", "failed_when", "with_items",
      "with_list", "with_fileglob", "with_together"].map String.toList
  modules :=
    ["ansible", "command", "shell", "copy", "template", "file", "lineinfile", "service",
      "systemd", "debug", "set_fact", "assert", "uri"].map String.toList
  taskKeywords :=
    ["name", "action", "args", "async", "poll", "become", "become_user", "become_method",
      "check_mode", "delegate_to", "delegate_facts", "run_once", "environment", "vars", "no_log",
      "throttle", "timeout", "loop_control", "tags", "with_list", "with_dict", "with_fileglob",
      "with_together", "with_sequence", "with_nested", "with_subelements", "with_first_found",
      "ignore_unreachable", "any_errors_fatal", "listen", "connection", "remote_user",
      "local_action", "module_defaults", "collections", "diff", "block", "rescue",
      "always"].map String.toList
  attributes :=
    ("register".toList, [.listValue, .moduleArgs]) ::
      ["retries", "delay", "until", "when", "changed_when", "failed_when", "notify",
        "ignore_errors", "loop", "with_items", "delegate_to", "become"].map
        fun key => (key.toList, [.listValue])
  descriptive := ["tags"].map String.toList

def isAttribute (registry : Registry) (key : Text) : Bool :=
  (registry.attributes.lookup key).isSome

/-- Adds an attribute that cannot live in lists, unless it is known already. -/
def addAttribute (registry : Registry) (key : Text) : Registry :=
  if registry.isAttribute key then registry
  else { registry with attributes := registry.attributes ++ [(key, [.listValue])] }

/-- The standard tables and the additions. -/
def extended (extra : RegistryExtension) : Registry :=
  let base :=
    { standard with
      sections := standard.sections ++ extra.sections
      blocks := standard.blocks ++ extra.blocks
      lists := standard.lists ++ extra.lists
      modules := standard.modules ++ extra.modules
      descriptive := standard.descriptive ++ extra.descriptive }
  extra.attributes.foldl addAttribute base

/-- A name with a dot inside it is a module's full name. -/
def isQualified (key : Text) : Bool :=
  key.contains '.' && key.head? != some '.' && key.getLast? != some '.'

def isModule (registry : Registry) (key : Text) : Bool :=
  isQualified key || registry.modules.contains key

/-- The role of `key` by its name, whatever follows it. -/
def roleOf? (registry : Registry) (key : Text) : Option Role :=
  if registry.sections.contains key then some .sectionTasks
  else if registry.blocks.contains key then some .blockTasks
  else if registry.lists.contains key then some .listValue
  else if registry.isModule key then some .moduleArgs
  else none

/-- `key` ends module arguments that are written at the module's own column. -/
def endsModuleArgs (registry : Registry) (key : Text) : Bool :=
  registry.taskKeywords.contains key || registry.isAttribute key || registry.isModule key

/-- The attribute `key` cannot be content of what `frameKey` opened in the role `role`. In lists
that holds only of the descriptive ones: the entries of others may be mappings. -/
def isStranded (registry : Registry) (key : Text) (role : Role) (frameKey : Text) : Bool :=
  match registry.attributes.lookup key with
  | none => false
  | some roles =>
    roles.contains role && (role != .listValue || registry.descriptive.contains frameKey)

end Registry

end Reindent
