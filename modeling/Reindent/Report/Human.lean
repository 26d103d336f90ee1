import Reindent.Report.Basic
import Reindent.Report.Style

/-!
# Reindent.Report.Human

The results of a run for a reader.

* `Report.human` — the lines that are printed, each without its line feed.
-/

namespace Reindent

namespace Report

def countsText (stats : Stats) : String :=
  s!"(reindented={stats.reindented} relocated={stats.relocated})"

/-- A line of a diff, coloured by its sign. -/
def diffLine (colour : Bool) (line : Text) : String :=
  let style : Style :=
    match line with
    | '+' :: _ => { colour := some .green }
    | '-' :: _ => { colour := some .red }
    | _ => { colour := some .cyan }
  style.paint colour (String.ofList line)

/-- A diff under the name of its file. Without colours the diff is printed whole, so that an
empty line follows it. -/
def diffLines (colour : Bool) (file : String) (diff : Text) : List String :=
  let dashes := Style.paint { colour := some .cyan, bold := true } colour "---"
  let head := dashes ++ " " ++ Style.paint { bold := true } colour file
  head :: if colour then diff.lines.map (diffLine colour) else [String.ofList diff]

/-- What is said about a file. -/
def headline (colour : Bool) (report : FileReport) : String :=
  let file := String.ofList report.file
  let bold := Style.paint { bold := true } colour
  let paint (c : Colour) (bold : Bool) := Style.paint { colour := some c, bold } colour
  match report.outcome with
  | .changed =>
    let label := if report.wrote then "✏️  fixed:" else "would fix:"
    paint .green true label ++ " " ++ bold file ++ " " ++
      paint .grey false (countsText report.stats)
  | .unchanged => paint .grey false "no changes:" ++ " " ++ file
  | .skipped =>
    paint .yellow true "⏭️  skipped:" ++ " " ++ file ++ " (" ++
      report.message.getD "skipped" ++ ")"
  | .failed =>
    paint .red false "✖" ++ " " ++ paint .red true "failed:" ++ " " ++ bold file ++ " " ++
      report.message.getD "failed"

/-- The lines that were left alone for the tabs in their indentation. -/
def malformedNote (colour : Bool) (stats : Stats) : List String :=
  if stats.malformed.isEmpty then []
  else
    let numbers := String.intercalate ", " (stats.malformed.map toString)
    ["  " ++ Style.paint { colour := some .yellow } colour "▲" ++
      " tab-indented line(s) left as-is: " ++ numbers]

def fileLines (colour showDiff : Bool) (report : FileReport) : List String :=
  let diff :=
    match report.diff? with
    | some diff =>
      if showDiff && report.outcome == .changed then
        diffLines colour (String.ofList report.file) diff
      else []
    | none => []
  headline colour report :: diff ++ malformedNote colour report.stats

def summaryLine (colour : Bool) (reports : List FileReport) : String :=
  let s := Summary.ofReports reports
  Style.paint { bold := true } colour
    (s!"— Summary — changed={s.changed} unchanged={s.unchanged} skipped={s.skipped} " ++
      s!"failed={s.failed} files={s.files}")

/-- The lines of the report. Differences are shown if asked for and nothing was written. -/
def human (reports : List FileReport) (colour write diff : Bool) : List String :=
  reports.flatMap (fileLines colour (diff && !write)) ++ [summaryLine colour reports]

end Report

end Reindent
