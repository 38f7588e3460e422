import FragmentFlow.Check.Diagnostic
import FragmentFlow.Json.Writer
import FragmentFlow.Session.Counters

/-!
# Reports

What checking a unit has brought to light, for people and for programs.
-/

namespace FragmentFlow

/-- A fragment that could not be checked, and why. -/
structure SkippedFragment where
  fragment : String
  reason : String
  deriving DecidableEq, Repr

/-- The outcome of checking a unit. -/
structure Report where
  unit : String
  fragmentsChecked : Nat := 0
  diagnostics : List Diagnostic := []
  skipped : List SkippedFragment := []
  deriving DecidableEq, Repr

namespace Report

/-- The number of diagnostics that reach a severity. -/
def countAtLeast (report : Report) (threshold : Severity) : Nat :=
  report.diagnostics.countP fun diagnostic => diagnostic.severity.isAtLeast threshold

/-- Whether there is a diagnostic of the highest severity. -/
def hasErrors (report : Report) : Bool :=
  0 < report.countAtLeast .error

/-- A report in JSON. -/
def toJson (report : Report) : Json :=
  .obj [("unit", .str report.unit), ("fragments_checked", .int report.fragmentsChecked),
    ("diagnostics", .arr (report.diagnostics.map Diagnostic.toJson)),
    ("skipped", .arr (report.skipped.map fun skipped =>
      .obj [("fragment", .str skipped.fragment), ("reason", .str skipped.reason)]))]

/-- The lines of a report. -/
def lines (palette : Palette) (report : Report) : List String :=
  (report.diagnostics.map fun diagnostic => diagnostic.describe palette) ++
    report.skipped.map fun skipped =>
      report.unit ++ ": " ++ palette.paint "2" "skipped" ++ " " ++ skipped.fragment ++ ": " ++
        skipped.reason

/-- The last lines after some reports. -/
def summary (palette : Palette) (reports : List Report) : List String :=
  let diagnostics := reports.flatMap Report.diagnostics
  let count (severity : Severity) : String :=
    toString (diagnostics.countP fun diagnostic => diagnostic.severity = severity)
  if diagnostics.isEmpty then [palette.paint "32" "No issues found"]
  else
    ["", "Found " ++ toString diagnostics.length ++ " issue(s): " ++ count .error ++ " error, " ++
      count .warning ++ " warning, " ++ count .info ++ " info"]

/-- Reports for people. -/
def renderText (palette : Palette) (reports : List Report) : String :=
  "\n".intercalate (reports.flatMap (lines palette) ++ summary palette reports)

/-- Reports for programs, with the counters of the session. -/
def renderJson (reports : List Report) (counters : Counters) : String :=
  (Json.obj [("units", .arr (reports.map toJson)), ("stats", counters.toJson)]).pretty

end Report

end FragmentFlow
