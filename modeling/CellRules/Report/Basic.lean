/-
CellRules.Report.Basic — what a run over many cells found.

A report lists the failing outcomes as issues, in the order of the cells and of the rules, and
counts what was looked at.
-/
import CellRules.Number.Written
import CellRules.Outcome

namespace CellRules

/-- A failing outcome at a cell. -/
structure Issue where
  row : Nat
  column : String
  rule : String
  severity : Severity
  message : String
  deriving DecidableEq, Repr

namespace Issue

/-- The issue of a failing outcome. -/
def ofOutcome (row : Nat) (column : String) (o : Outcome) : Issue :=
  ⟨row, column, o.rule, o.verdict.severity, o.verdict.message⟩

def members : List String := ["row", "column", "rule_name", "severity", "message"]

def toJson (i : Issue) : Json :=
  .object <| members.zip
    [.nat i.row, .string i.column, .string i.rule, i.severity.toJson, .string i.message]

def ofJson? (j : Json) : Option Issue :=
  match j.record? false members with
  | some [row, column, rule, severity, message] => do
    some
      { row := ← row.bind Json.nat64?
        column := ← column.bind Json.string?
        rule := ← rule.bind Json.string?
        severity := ← severity.bind Severity.ofJson?
        message := ← message.bind Json.string? }
  | _ => none

end Issue

/-- What was looked at. -/
structure Metrics where
  rows : Nat := 0
  cells : Nat := 0
  invalidCells : Nat := 0
  rulesEvaluated : Nat := 0
  rulesSkipped : Nat := 0
  rulesFailed : Nat := 0
  faults : Nat := 0
  millis : Nat := 0
  deriving DecidableEq, Repr

namespace Metrics

/-- The percentage of cells that are valid; all of them where there are none. There are no more
invalid cells than cells. -/
def validRate (m : Metrics) : Float :=
  if m.cells = 0 then Number.nearest false 100 1
  else
    Number.nearest false (m.cells - m.invalidCells) 1 / Number.nearest false m.cells 1 *
      Number.nearest false 100 1

/-- The members of metrics with their values, in order. -/
def members (m : Metrics) : List (String × Nat) :=
  [("rows", m.rows), ("cells_evaluated", m.cells), ("invalid_cells", m.invalidCells),
    ("rules_evaluated", m.rulesEvaluated), ("rules_skipped", m.rulesSkipped),
    ("rules_failed", m.rulesFailed), ("faults", m.faults), ("execution_time_ms", m.millis)]

def toJson (m : Metrics) : Json := .object (m.members.map fun (name, n) => (name, .nat n))

def ofJson? (j : Json) : Option Metrics := do
  let values ← j.record? false ((members {}).map (·.1))
  match ← values.mapM fun v => v.bind Json.nat64? with
  | [rows, cells, invalidCells, rulesEvaluated, rulesSkipped, rulesFailed, faults, millis] =>
    some { rows, cells, invalidCells, rulesEvaluated, rulesSkipped, rulesFailed, faults, millis }
  | _ => none

/-- Counts one more cell. -/
def add (m : Metrics) (cell : CellReport) : Metrics :=
  { m with
    cells := m.cells + 1
    invalidCells := m.invalidCells + if cell.passes then 0 else 1
    rulesEvaluated := m.rulesEvaluated + cell.evaluatedCount
    rulesSkipped := m.rulesSkipped + cell.skippedCount
    rulesFailed := m.rulesFailed + cell.failures.length
    faults := m.faults + cell.failures.countP (·.status == .faulted) }

end Metrics

/-- What a run over many cells found. -/
structure Report where
  ruleSet : String
  timestamp : String
  metrics : Metrics := {}
  issues : List Issue := []
  deriving DecidableEq, Repr

namespace Report

/-- Takes in one more cell. -/
def add (r : Report) (cell : CellReport) : Report :=
  { r with
    metrics := r.metrics.add cell
    issues := r.issues ++ cell.failures.map (Issue.ofOutcome cell.row cell.column) }

/-- The report of some cells. -/
def ofCells (ruleSet timestamp : String) (rows : Nat) (cells : List CellReport) : Report :=
  cells.foldl add { ruleSet, timestamp, metrics := { rows } }

def hasErrors (r : Report) : Bool := r.issues.any (·.severity == .error)

def hasWarnings (r : Report) : Bool := r.issues.any (·.severity == .warning)

/-- No issue is an error. -/
def isValid (r : Report) : Bool := !r.hasErrors

/-- The issues of a severity. -/
def issuesOf (r : Report) (severity : Severity) : List Issue :=
  r.issues.filter (·.severity == severity)

/-- The issues of a row. -/
def rowIssues (r : Report) (row : Nat) : List Issue := r.issues.filter (·.row == row)

end Report

end CellRules
