/-
CellRules.Report.Data — reports as JSON.

The status and the number of issues are those of the whole report, whatever part of it is shown.
-/
import CellRules.Json.Writer
import CellRules.Report.Options

namespace CellRules.Report

/-- The word for how a report ends. -/
def statusWord (r : Report) : String := if r.isValid then "passed" else "failed"

/-- A member that is there under a condition. -/
def memberIf (condition : Bool) (name : String) (v : Json) : List (String × Json) :=
  if condition then [(name, v)] else []

/-- The shown part of a report as a JSON value. -/
def toJson (r : Report) (o : Options) : Json :=
  .object <|
    [("status", .string r.statusWord), ("rule_set_name", .string r.ruleSet)] ++
      memberIf o.timestamp "timestamp" (.string r.timestamp) ++
      memberIf o.metrics "metrics" r.metrics.toJson ++
      [("issues", .array ((o.visible r).map Issue.toJson)),
        ("total_issues", .nat r.issues.length)]

/-- The shown part of a report as JSON text, over several lines or compact. -/
def jsonText (r : Report) (o : Options) (pretty : Bool) : String :=
  if pretty then (r.toJson o).pretty else (r.toJson o).compact

end CellRules.Report
