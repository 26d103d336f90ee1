import Reindent.Batch
import Reindent.CommandLine.Basic
import Reindent.Config.Settings
import Reindent.Report.Human

/-!
# Reindent.CommandLine.Run

What a command does.

* `Invocation.run` — runs a command on a tree.
* `RunResult`      — what is printed, the exit code and the tree afterwards.
-/

namespace Reindent

/-- How the surroundings of a run want its output. -/
structure Surroundings where
  colour : Bool := true
  log : Bool := true
  deriving DecidableEq, Repr

/-- A line beside the report. -/
inductive Notice where
  | note (text : String)
  | info (text : String)
  | error (text : String)
  | logged (record : Record)
  deriving DecidableEq, Repr

namespace Notice

/-- A label in front of a text. -/
def labelled (colour : Bool) (label : String) (hue : Colour) (text : String) : String :=
  Style.paint { colour := some hue, bold := true } colour label ++ " " ++ text

/-- The line, if it is shown. -/
def line? (surroundings : Surroundings) (verbosity : Nat) : Notice → Option String
  | note text => some (labelled surroundings.colour "note:" .yellow text)
  | info text => some (labelled surroundings.colour "info:" .blue text)
  | error text => some (labelled surroundings.colour "error:" .red text)
  | logged record =>
    if surroundings.log && (Severity.shown verbosity).contains record.severity then some record.line
    else none

end Notice

structure RunResult where
  exitCode : Nat
  /-- What happened to the files, in the order in which they were repaired. -/
  reports : List FileReport := []
  /-- The lines of the report, each without its line feed. -/
  output : List String
  notices : List Notice
  tree : Tree
  /-- What stopped the run before any file was touched. -/
  stop : Option ConfigError := none

/-- The version of the program. -/
def version : String := "0.1.0"

namespace FixRequest

/-- A switch can only turn a setting on. -/
def switch (isOn : Bool) : Option Bool :=
  if isOn then some true else none

def overrides (request : FixRequest) : Overrides where
  repoRoot := request.repoRoot
  output := request.output
  fix :=
    { write := switch request.write
      diff := switch request.diff
      check := switch request.check
      jobs := request.jobs
      documentStart := switch request.documentStart }

end FixRequest

namespace RunResult

/-- A run that stops before any file is touched. -/
def stopped (tree : Tree) (notices : List Notice) (error : ConfigError) : RunResult where
  exitCode := 2
  output := []
  notices := notices ++ [.error error.message]
  tree
  stop := some error

end RunResult

namespace Settings

/-- Tells that there is no configuration file. -/
def fileNotice (settings : Settings) : List Notice :=
  if settings.configFile.isNone && settings.output != .json then
    [.note "No indentfix.toml found; using defaults."]
  else []

/-- Tells how many files there are. -/
def discoveryNotices (settings : Settings) (tree : Tree) (discovery : Discovery) : List Notice :=
  let named := discovery.named.length
  let count := discovery.targets.length
  let patterns := String.intercalate ", " (settings.patterns.map String.ofList)
  let root := String.ofList (settings.repoRoot.shown tree.workingDirectory)
  let jobs := settings.jobs.elim "auto" toString
  let unmatched : List Notice :=
    if count == 0 && settings.output != .json then
      [.info s!"No YAML files matched [{patterns}] under {root}"]
    else []
  [.logged ⟨.debug, .files,
      s!"discovered {discovery.found.length + named} file(s), {named} named explicitly"⟩] ++
    unmatched ++
    [.logged ⟨.info, .program, s!"fixing {count} file(s) (write={settings.writes}, jobs={jobs})"⟩]

def engine (settings : Settings) : Engine where
  registry := .extended settings.keys
  ensureDocumentStart := settings.documentStart

def batchOptions (settings : Settings) : BatchOptions where
  write := settings.writes
  capture := settings.diff || settings.output == .json

/-- The lines of the report. -/
def report (settings : Settings) (colour : Bool) (reports : List FileReport) : List String :=
  match settings.output with
  | .json => [(Report.toJson reports settings.writes settings.diff).pretty]
  | .human => Report.human reports colour settings.writes settings.diff

/-- A run fails if a file does, and a check if a file is not as it should be. -/
def exitCode (settings : Settings) (reports : List FileReport) : Nat :=
  let summary := Summary.ofReports reports
  if summary.failed > 0 || (settings.check && summary.changed > 0) then 1 else 0

end Settings

namespace FixRequest

/-- Repairs the files that a request names. -/
def run (request : FixRequest) (colour : Bool) (tree : Tree) : RunResult :=
  match Settings.resolve tree request.overrides with
  | .error error => .stopped tree [] error
  | .ok settings =>
    match Discovery.find tree settings.repoRoot (request.paths.map Path.mk) settings.patterns
        settings.exclude with
    | .error error => .stopped tree settings.fileNotice error
    | .ok discovery =>
      let batch :=
        Batch.fixFiles settings.engine settings.batchOptions tree discovery.targets
      let reports := batch.sortedReports
      { exitCode := settings.exitCode reports
        reports := batch.reports
        output := settings.report colour reports
        notices :=
          settings.fileNotice ++ settings.discoveryNotices tree discovery ++
            batch.records.map .logged
        tree := batch.tree }

end FixRequest

namespace Invocation

def run (invocation : Invocation) (surroundings : Surroundings) (tree : Tree) : RunResult :=
  match invocation.command with
  | .version => { exitCode := 0, output := [version], notices := [], tree }
  | .fix request => request.run surroundings.colour tree

/-- The lines that are shown beside the report. -/
def noticeLines (invocation : Invocation) (surroundings : Surroundings) (result : RunResult) :
    List String :=
  result.notices.filterMap (Notice.line? surroundings invocation.verbose)

end Invocation

end Reindent
