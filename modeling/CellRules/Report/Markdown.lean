/-
CellRules.Report.Markdown — reports as Markdown documents.

Issues stand in a table, a line for each. In a table cell a pipe is escaped and a line feed
becomes a space.
-/
import CellRules.Report.Options
import CellRules.Text.Substitute

namespace CellRules.Report

/-- The level of a heading: from one to six. -/
def headingLevel (level : Nat) : Nat := min (max level 1) 6

/-- How one character stands in a table cell. -/
def tableChar (c : Char) : List Char :=
  if c == '|' then ['\\', '|'] else if c == '\n' then [' '] else [c]

/-- A text in a table cell. -/
def tableCell (s : String) : String := String.ofList (s.toList.flatMap tableChar)

/-- A line of a table. -/
def tableRow (cells : List String) : String := "| " ++ " | ".intercalate cells ++ " |"

/-- The cells of an issue, numbered from one. -/
def issueCells (i : Issue) (index : Nat) : List String :=
  [toString (index + 1), i.severity.word, toString i.row, tableCell i.column, tableCell i.rule,
    tableCell i.message]

/-- The table of some issues. -/
def issueTable (issues : List Issue) : List String :=
  ["| # | Severity | Row | Column | Rule | Message |",
    "|---|----------|-----|--------|------|---------|"] ++
    issues.zipIdx.map fun (i, index) => tableRow (issueCells i index)

/-- The table of the counts. -/
def metricsTable (m : Metrics) : List String :=
  ["| Metric | Value |", "|--------|-------|"] ++
    [["Rows", toString m.rows],
      ["Cells Evaluated", toString m.cells],
      ["Invalid Cells", toString m.invalidCells],
      ["Rules Evaluated", toString m.rulesEvaluated],
      ["Rules Failed", toString m.rulesFailed],
      ["Rules Skipped", toString m.rulesSkipped],
      ["Faults", toString m.faults],
      ["Valid Cell Rate", Number.oneDecimal m.validRate ++ "%"],
      ["Execution Time", toString m.millis ++ "ms"]].map tableRow

/-- The lines about the issues; none if none is shown. -/
def markdownIssues (r : Report) (o : Options) (heading : String) : List String :=
  linesIf (!(o.visible r).isEmpty) <|
    ["", heading ++ "# Issues", ""] ++ issueTable (o.visible r) ++
      linesIf (0 < o.hiddenCount r)
        ["", "> **Note:** " ++ toString (o.hiddenCount r) ++
          " additional issues not shown in this report."]

/-- A report as a Markdown document whose first heading has a level; the ones below are one level
deeper, whatever the first. -/
def markdownText (r : Report) (o : Options) (level : Nat) : String :=
  let heading := String.ofList (List.replicate (headingLevel level) '#')
  unlines <|
    [heading ++
        if r.isValid then " ✅ Grid Validation Report - PASSED"
        else " ❌ Grid Validation Report - FAILED",
      "",
      "**Rule set:** " ++ r.ruleSet] ++
      linesIf o.timestamp ["**Timestamp:** " ++ r.timestamp] ++
      linesIf o.metrics (["", heading ++ "# Summary", ""] ++ metricsTable r.metrics) ++
      r.markdownIssues o heading

end CellRules.Report
