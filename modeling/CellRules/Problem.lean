/-
CellRules.Problem — why an operation gave no answer.

A failing cell is no problem: it is a verdict like any other. A problem is a fault of the set-up, of
the data source, or of the moment (a run cancelled, a scheduler closed).
-/

namespace CellRules

/-- Why an operation gave no answer. -/
inductive Problem where
  | incompleteRule (rule reason : String)
  | duplicateRule (set rule : String)
  | unknownColumn (rule column : String)
  | columnNotFound (column : String) (row : Nat)
  | configuration (detail : String)
  | rowOutOfRange (row count : Nat)
  | dataAccess (detail : String)
  | cancelled
  | schedulerClosed
  | serialization (detail : String)
  | formatting
  deriving DecidableEq, Repr, Inhabited

namespace Problem

/-- A text between single quotes. -/
def named (s : String) : String := "'" ++ s ++ "'"

def message : Problem → String
  | incompleteRule rule reason => "Incomplete rule " ++ named rule ++ ": " ++ reason
  | duplicateRule set rule =>
    "Rule set " ++ named set ++ " already contains a rule named " ++ named rule
  | unknownColumn rule column =>
    "Rule " ++ named rule ++ " references unknown column " ++ named column
  | columnNotFound column row => "Column " ++ named column ++ " not found in row " ++ toString row
  | configuration detail => "Configuration error: " ++ detail
  | rowOutOfRange row count =>
    "Row " ++ toString row ++ " is out of range (row count " ++ toString count ++ ")"
  | dataAccess detail => "Data access error: " ++ detail
  | cancelled => "Validation was cancelled"
  | schedulerClosed => "Validation scheduler is closed"
  | serialization detail => "Serialization error: " ++ detail
  | formatting => "Formatting error: an error occurred when formatting an argument"

/-- The name of the kind of a problem, for programs that tell them apart. -/
def kind : Problem → String
  | incompleteRule .. => "IncompleteRule"
  | duplicateRule .. => "DuplicateRule"
  | unknownColumn .. => "UnknownColumn"
  | columnNotFound .. => "ColumnNotFound"
  | configuration .. => "Configuration"
  | rowOutOfRange .. => "RowOutOfRange"
  | dataAccess .. => "DataAccess"
  | cancelled => "Cancelled"
  | schedulerClosed => "SchedulerClosed"
  | serialization .. => "Serialization"
  | formatting => "Format"

def isCancelled (p : Problem) : Bool := p == cancelled

end Problem

end CellRules
