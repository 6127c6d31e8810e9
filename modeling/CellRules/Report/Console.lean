/-
CellRules.Report.Console — reports for people at a terminal.
-/
import CellRules.Report.Options

namespace CellRules.Report

/-- A text in a terminal colour, or plain. -/
def paint (colors : Bool) (color text : String) : String :=
  if colors then "\x1b[" ++ color ++ "m" ++ text ++ "\x1b[0m" else text

def red : String := "31"
def green : String := "32"
def yellow : String := "33"
def blue : String := "34"

/-- The sign of a severity. -/
def sign (colors : Bool) : Severity → String
  | .error => paint colors red "🚨"
  | .warning => paint colors yellow "⚠️"
  | .info => paint colors blue "ℹ️"

/-- The lines about one issue, numbered from one. -/
def consoleIssue (colors : Bool) (i : Issue) (index : Nat) : List String :=
  ["",
    "   " ++ sign colors i.severity ++ " Issue #" ++ toString (index + 1) ++ ": row " ++
      toString i.row ++ ", column " ++ i.column,
    "      Rule: " ++ i.rule,
    "      Severity: " ++ i.severity.word,
    "      Message: " ++ i.message]

/-- The lines about the counts. -/
def consoleMetrics (colors : Bool) (m : Metrics) : List String :=
  ["",
    "📊 Summary Statistics:",
    "   Rows: " ++ toString m.rows,
    "   Cells Evaluated: " ++ toString m.cells,
    "   ❌ Invalid Cells: " ++ paint colors red (toString m.invalidCells),
    "   Rules: " ++ toString m.rulesEvaluated ++ " evaluated, " ++ toString m.rulesFailed ++
      " failed, " ++ toString m.rulesSkipped ++ " skipped"] ++
    linesIf (0 < m.faults) ["   💥 Faults: " ++ paint colors yellow (toString m.faults)] ++
    ["   Valid Cell Rate: " ++ Number.oneDecimal m.validRate ++ "%",
      "   Execution Time: " ++ toString m.millis ++ "ms"]

/-- The line about the issues that are left out. -/
def consoleHidden (count : Nat) : List String :=
  linesIf (0 < count) ["", "   ... and " ++ toString count ++ " more issues"]

/-- The lines about the issues; none if none is shown. -/
def consoleIssues (r : Report) (o : Options) : List String :=
  linesIf (!(o.visible r).isEmpty) <|
    ["", "🔍 Issues Found:"] ++
      (o.visible r).zipIdx.flatMap (fun (i, index) => consoleIssue o.colors i index) ++
      consoleHidden (o.hiddenCount r)

/-- A report for people at a terminal. -/
def consoleText (r : Report) (o : Options) : String :=
  unlines <|
    ["",
      if r.isValid then "✅ " ++ paint o.colors green "Validation PASSED"
      else "❌ " ++ paint o.colors red "Validation FAILED",
      "",
      "Rule set: " ++ r.ruleSet] ++
      linesIf o.timestamp ["Timestamp: " ++ r.timestamp] ++
      linesIf o.metrics (consoleMetrics o.colors r.metrics) ++
      r.consoleIssues o ++
      [""]

end CellRules.Report
