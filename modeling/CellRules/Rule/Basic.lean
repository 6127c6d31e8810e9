/-
CellRules.Rule.Basic — rules.

A rule judges the cells of its target columns. It may have a guard, runs its validators in order
until one fails, and knows which other columns and rows its answer depends on.
-/
import CellRules.Ascending
import CellRules.Log.Event
import CellRules.Rule.Guard
import CellRules.Rule.Validator
import CellRules.Text.Quoted

namespace CellRules

/-- The rows that an edit of a column makes a rule judge again: those with the same value in a
column, or all. -/
inductive Scope where
  | sameValue (column : String)
  | allRows
  deriving DecidableEq, Repr

/-- A rule. Columns are listed in ascending order, each once. -/
structure Rule where
  name : String
  description : Option String
  targets : List String
  dependencies : List String
  guard : Option Guard
  validators : List Validator
  scopes : List Scope
  severity : Severity
  priority : Int
  message : String

namespace Rule

/-- The rule judges the column. -/
def appliesTo (r : Rule) (column : String) : Bool := r.targets.contains column

/-- The rule reads the column beside those it judges. -/
def dependsOn (r : Rule) (column : String) : Bool := r.dependencies.contains column

/-- A validator of the rule looks at other rows. -/
def needsRows (r : Rule) : Bool := r.validators.any (·.stage == .crossRow)

/-- An edit of the column may change what a scope's validator says about other rows. -/
def scopeSpans (r : Rule) (column : String) : Scope → Bool
  | .sameValue key => key == column
  | .allRows => r.appliesTo column || r.dependsOn column

/-- An edit of the column may change what the rule says about other rows. -/
def spansRowsOn (r : Rule) (column : String) : Bool := r.scopes.any (r.scopeSpans column)

/-- The texts between braces with commas. -/
def setForm (items : List String) : String := "\x7b" ++ ", ".intercalate items ++ "\x7d"

/-- One line about the rule, for programmers. -/
def summary (r : Rule) : String :=
  "Rule \x7b name: " ++ Text.quote r.name ++
    ", target_columns: " ++ setForm (r.targets.map Text.quote) ++
    ", dependency_columns: " ++ setForm (r.dependencies.map Text.quote) ++
    ", has_guard: " ++ Event.truth r.guard.isSome ++
    ", validators: [" ++
      ", ".intercalate (r.validators.map fun v => "Validator::" ++ v.stage.word) ++ "]" ++
    ", severity: " ++ r.severity.name ++
    ", priority: " ++ toString r.priority ++
    ", message: " ++ Text.quote r.message ++ " \x7d"

end Rule

end CellRules
