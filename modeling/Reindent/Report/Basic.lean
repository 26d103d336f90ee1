import Reindent.Pass.State
import Reindent.Diff
import Reindent.Json

/-!
# Reindent.Report.Basic

The results of a run.

* `FileReport` — what happened to one file.
* `Summary`    — how many files had which outcome.
* `Report.toJson` — the results as JSON.
-/

namespace Reindent

inductive Outcome where
  | changed
  | unchanged
  | skipped
  | failed
  deriving DecidableEq, Repr

namespace Outcome

def name : Outcome → String
  | changed => "changed"
  | unchanged => "unchanged"
  | skipped => "skipped"
  | failed => "failed"

end Outcome

structure FileReport where
  /-- The path as it is shown. -/
  file : Text
  outcome : Outcome
  /-- The result was written back. -/
  wrote : Bool := false
  stats : Stats := {}
  /-- Why the file was skipped, or how it failed. -/
  message : Option String := none
  /-- The document before. -/
  before : Option Text := none
  /-- The document after. -/
  after : Option Text := none
  deriving DecidableEq, Repr

namespace FileReport

/-- The difference of the document before and after, where both are known. -/
def diff? (report : FileReport) : Option Text :=
  match report.before, report.after with
  | some old, some new => some (lineDiff old new)
  | _, _ => none

end FileReport

structure Summary where
  changed : Nat
  unchanged : Nat
  skipped : Nat
  failed : Nat
  files : Nat
  deriving DecidableEq, Repr

namespace Summary

def ofReports (reports : List FileReport) : Summary :=
  let count (outcome : Outcome) := reports.countP (·.outcome == outcome)
  { changed := count .changed, unchanged := count .unchanged, skipped := count .skipped,
    failed := count .failed, files := reports.length }

end Summary

namespace Report

def statsJson (stats : Stats) : Json :=
  .obj
    [("reindented", .nat stats.reindented), ("relocated", .nat stats.relocated),
      ("malformed", .arr (stats.malformed.map .nat)), ("document_start", .bool stats.documentStart)]

def textJson (text : Option Text) : Json :=
  text.elim .null fun text => .str (String.ofList text)

def fileJson (showDiff : Bool) (report : FileReport) : Json :=
  .obj
    [("file", .str (String.ofList report.file)), ("outcome", .str report.outcome.name),
      ("changed", .bool (report.outcome == .changed)), ("wrote", .bool report.wrote),
      ("stats", statsJson report.stats), ("message", report.message.elim .null .str),
      ("diff", textJson (if showDiff then report.diff? else none))]

def summaryJson (reports : List FileReport) : Json :=
  let summary := Summary.ofReports reports
  .obj
    [("changed", .nat summary.changed), ("unchanged", .nat summary.unchanged),
      ("skipped", .nat summary.skipped), ("failed", .nat summary.failed),
      ("files", .nat summary.files), ("wrote", .nat (reports.countP FileReport.wrote))]

/-- The results as JSON. Differences are shown if asked for and nothing was written. -/
def toJson (reports : List FileReport) (write diff : Bool) : Json :=
  .obj
    [("results", .arr (reports.map (fileJson (diff && !write)))), ("summary", summaryJson reports)]

end Report

end Reindent
