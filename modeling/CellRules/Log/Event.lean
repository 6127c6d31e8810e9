/-
CellRules.Log.Event — what is logged.

Each kind of event is a constructor with its data; `level`, `message` and `fields` give its written
form.
-/
import CellRules.Log.Level
import CellRules.Outcome
import CellRules.Text.Quoted

namespace CellRules

/-- Something worth a line in the log. -/
inductive Event where
  | guardFalse (rule : String) (row : Nat) (column : Option String)
  | checkFaulted (rule stage : String) (row : Nat) (column : Option String) (detail : String)
  | ruleFailed (rule stage : String) (row : Nat) (verdict : Verdict)
  | rulePassed (rule : String) (row : Nat)
  | ruleAdded (set rule : String) (priority : Int)
  | stoppedAtError (set rule : String) (row : Nat) (column : String) (remaining : Nat)
  | columnSkipped (set column : String)
  | allRowsStarted (set : String) (rows columns : Nat) (batched : Bool)
  | allRowsDone (set : String) (cells invalid faults : Nat)
  | timerArmed (row : Nat) (column : String) (millis : Nat)
  | timerRearmed (row : Nat) (column : String)
  | supersededCancelled (row : Nat) (column : String)
  | editedWhileRunning (row : Nat) (column : String)
  | peersScheduled (row : Nat) (column : String) (peers : Nat)
  | staleDiscarded (row : Nat) (column : String) (generation : Nat)
  | evaluationAbandoned (row : Nat) (column : String)
  | evaluationFailed (set : String) (row : Nat) (column message : String)
  | outcomeDelivered (rule : String) (status : Status) (row : Nat) (column : String)
  | cellFailed (set : String) (row : Nat) (column message : String)
  | cellDelivered (row : Nat) (column : String) (valid : Bool)
  | shutDown (set : String) (abandoned : Nat)
  deriving DecidableEq, Repr

namespace Event

def level : Event → Level
  | checkFaulted .. | evaluationFailed .. => .error
  | columnSkipped .. | cellFailed .. => .warn
  | allRowsStarted .. | allRowsDone .. | shutDown .. => .info
  | _ => .debug

def message : Event → String
  | guardFalse .. => "Guard is false, skipping rule"
  | checkFaulted .. => "Validator faulted"
  | ruleFailed .. => "Rule failed"
  | rulePassed .. => "Rule passed"
  | ruleAdded .. => "Adding rule"
  | stoppedAtError .. => "Stopping at first error"
  | columnSkipped .. => "Skipping column the grid does not expose"
  | allRowsStarted .. => "Validating all rows"
  | allRowsDone .. => "All-rows validation completed"
  | timerArmed .. => "Debounce timer armed"
  | timerRearmed .. => "Debounce timer re-armed"
  | supersededCancelled .. => "Cancelling superseded evaluation"
  | editedWhileRunning .. => "Edit during evaluation, scheduling another pass"
  | peersScheduled .. => "Re-validating cross-row peers"
  | staleDiscarded .. => "Newer result already reported, discarding"
  | evaluationAbandoned .. => "Evaluation abandoned, result discarded"
  | evaluationFailed .. => "Cell evaluation failed"
  | outcomeDelivered .. => "Rule outcome"
  | cellFailed .. => "Cell failed validation"
  | cellDelivered .. => "Cell validated"
  | shutDown .. => "Validation scheduler shut down"

/-- A truth value as text. -/
def truth (b : Bool) : String := if b then "true" else "false"

/-- A column, as a programmer's text tells it from no column. -/
def columnForm : Option String → String
  | some column => "Some(" ++ Text.quote column ++ ")"
  | none => "None"

/-- The fields that name a cell. -/
def cellFields (row : Nat) (column : String) : List (String × String) :=
  [("cell.row", toString row), ("cell.column", column)]

def fields : Event → List (String × String)
  | guardFalse rule row column =>
    [("rule.name", rule), ("cell.row", toString row), ("cell.column", columnForm column)]
  | checkFaulted rule stage row column detail =>
    [("rule.name", rule), ("rule.stage", stage), ("cell.row", toString row),
      ("cell.column", columnForm column), ("error", detail), ("error.type", "validator_fault")]
  | ruleFailed rule stage row verdict =>
    [("rule.name", rule), ("rule.stage", stage), ("cell.row", toString row),
      ("failure.severity", verdict.severity.word), ("failure.message", verdict.message)]
  | rulePassed rule row => [("rule.name", rule), ("cell.row", toString row)]
  | ruleAdded set rule priority =>
    [("rule_set.name", set), ("rule.name", rule), ("rule.priority", toString priority)]
  | stoppedAtError set rule row column remaining =>
    [("rule_set.name", set), ("rule.name", rule)] ++ cellFields row column ++
      [("rules.remaining", toString remaining)]
  | columnSkipped set column => [("rule_set.name", set), ("cell.column", column)]
  | allRowsStarted set rows columns batched =>
    [("rule_set.name", set), ("rows", toString rows), ("columns", toString columns),
      ("batched", truth batched)]
  | allRowsDone set cells invalid faults =>
    [("rule_set.name", set), ("metrics.cells", toString cells),
      ("metrics.invalid_cells", toString invalid), ("metrics.faults", toString faults)]
  | timerArmed row column millis => cellFields row column ++ [("debounce_ms", toString millis)]
  | timerRearmed row column | supersededCancelled row column | editedWhileRunning row column
  | evaluationAbandoned row column => cellFields row column
  | peersScheduled row column peers => cellFields row column ++ [("peers", toString peers)]
  | staleDiscarded row column generation =>
    cellFields row column ++ [("generation", toString generation)]
  | evaluationFailed set row column message =>
    ("rule_set.name", set) :: cellFields row column ++ [("error", message)]
  | outcomeDelivered rule status row column =>
    [("rule.name", rule), ("rule.status", status.label)] ++ cellFields row column
  | cellFailed set row column message =>
    ("rule_set.name", set) :: cellFields row column ++ [("failure.message", message)]
  | cellDelivered row column valid => cellFields row column ++ [("cell.valid", truth valid)]
  | shutDown set abandoned =>
    [("rule_set.name", set), ("cells.abandoned", toString abandoned)]

end Event

end CellRules
