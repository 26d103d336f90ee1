import Reindent.Discovery
import Reindent.Document
import Reindent.Log
import Reindent.Report.Basic

/-!
# Reindent.Batch

Repairs the files of a tree.

* `readDocument` — the document in a file, or the fault of the file.
* `fixFile`      — repairs one file.
* `fixFiles`     — repairs one file after the other.

A file with a fault stays as it is, and the files after it are repaired all the same.
-/

namespace Reindent

/-- Why a file is not repaired. -/
inductive FileFault where
  | notYaml
  | unreadable (path : Path) (error : LookupError)
  /-- The file holds a NUL. -/
  | binary
  /-- The file is not UTF-8. -/
  | encoding
  | engine (fault : Fault)
  deriving DecidableEq, Repr

namespace FileFault

def message : FileFault → String
  | notYaml => "not a .yml/.yaml file"
  | unreadable path error => s!"failed to read {String.ofList path.spelling}: {error.message}"
  | binary => "contains NUL bytes"
  | encoding => "not valid UTF-8"
  | engine fault => fault.message ++ "; file left unchanged"

/-- Files that hold no YAML text are skipped. Other faults are failures. -/
def isSkip : FileFault → Bool
  | notYaml | binary | encoding => true
  | unreadable .. | engine _ => false

end FileFault

structure BatchOptions where
  write : Bool := false
  /-- Keep the documents before and after. -/
  capture : Bool := false
  deriving DecidableEq, Repr

/-- What comes of some files. -/
structure Batch where
  tree : Tree
  reports : List FileReport := []
  records : List Record := []

/-- The document in a file. A file that is named has to be a YAML file if it exists. -/
def readDocument (tree : Tree) (target : Target) : Except FileFault Text :=
  if target.explicit && !target.path.isYaml && tree.pathExists target.path then .error .notYaml
  else
    match tree.read target.path with
    | .error e => .error (.unreadable target.path e)
    | .ok content =>
      if content.toList.contains 0 then .error .binary
      else
        match Text.ofBytes? content with
        | none => .error .encoding
        | some text => .ok text

/-- The document in a file after its repair, with the document before. A failure of the engine
gives the events up to it too. -/
def repairDocument (engine : Engine) (tree : Tree) (target : Target) :
    Except (FileFault × List Event) (Text × Repair) :=
  match readDocument tree target with
  | .error fault => .error (fault, [])
  | .ok text =>
    match engine.repair text with
    | .error failure => .error (.engine failure.fault, failure.events)
    | .ok repair => .ok (text, repair)

/-- The tree with the file at `path` replaced. -/
def Tree.writeDocument (tree : Tree) (path : Path) (text : Text) : Tree :=
  match tree.locate path with
  | .ok location => tree.write location text.toBytes
  | .error _ => tree

namespace Batch

/-- Adds a file that is not repaired. -/
def addFault (batch : Batch) (file : Text) (fault : FileFault) (events : List Event) : Batch :=
  let name := String.ofList file
  let (outcome, record) : Outcome × Record :=
    if fault.isSkip then (.skipped, ⟨.warn, .files, s!"skipping {name}: {fault.message}"⟩)
    else (.failed, ⟨.error, .files, s!"{name}: {fault.message}"⟩)
  { batch with
    reports := batch.reports ++ [{ file, outcome, message := some fault.message }]
    records := batch.records ++ events.map Record.ofEvent ++ [record] }

/-- Adds a file whose document `text` becomes `repair`. -/
def addRepair (options : BatchOptions) (batch : Batch) (path : Path) (file text : Text)
    (repair : Repair) : Batch :=
  let wrote := repair.changed && options.write
  let keeps := repair.changed && options.capture
  let report : FileReport :=
    { file
      outcome := if repair.changed then .changed else .unchanged
      wrote
      stats := repair.stats
      before := if keeps then some text else none
      after := if keeps then some repair.text else none }
  let record : Record := ⟨.debug, .files, s!"wrote {String.ofList path.spelling}"⟩
  { tree := if wrote then batch.tree.writeDocument path repair.text else batch.tree
    reports := batch.reports ++ [report]
    records :=
      batch.records ++ repair.events.map Record.ofEvent ++ if wrote then [record] else [] }

/-- Repairs one file. -/
def fixFile (engine : Engine) (options : BatchOptions) (batch : Batch) (target : Target) : Batch :=
  let file := target.path.shown batch.tree.workingDirectory
  match repairDocument engine batch.tree target with
  | .error (fault, events) => batch.addFault file fault events
  | .ok (text, repair) => addRepair options batch target.path file text repair

/-- Repairs one file after the other. -/
def fixFiles (engine : Engine) (options : BatchOptions) (tree : Tree) (targets : List Target) :
    Batch :=
  targets.foldl (fixFile engine options) { tree }

/-- The reports in the order of the names that they show. -/
def sortedReports (batch : Batch) : List FileReport :=
  batch.reports.mergeSort fun a b => (Text.order a.file b.file).isLE

end Batch

end Reindent
