/-
CellRules.RuleSet.Basic — rules under one name.

A rule set holds rules of different names in the order they were added, a mode and a throttle. It
answers which rules judge a column and which cells an edit concerns.
-/
import CellRules.Grid.Source
import CellRules.Rule.Evaluation
import CellRules.RuleSet.Throttle

namespace CellRules

/-- Whether the rules of a cell all run, or stop at the first error. -/
inductive Mode where
  | processAll
  | stopOnFirstError
  deriving DecidableEq, Repr

/-- The word for a mode. -/
def Mode.word : Mode → String
  | .processAll => "process_all"
  | .stopOnFirstError => "stop_on_first_error"

/-- The mode of a word. -/
def Mode.ofWord? (s : String) : Option Mode :=
  [Mode.processAll, .stopOnFirstError].find? (·.word == s)

/-- Rules under one name. -/
structure RuleSet where
  name : String
  rules : List Rule := []
  mode : Mode := .processAll
  throttle : Throttle := .interactive

namespace RuleSet

/-- The rule of a name. -/
def rule? (s : RuleSet) (name : String) : Option Rule := s.rules.find? (·.name == name)

/-- Adds a rule of a new name at the end. -/
def add (s : RuleSet) (r : Rule) : Except Problem RuleSet :=
  if (s.rule? r.name).isSome then .error (.duplicateRule s.name r.name)
  else .ok { s with rules := s.rules ++ [r] }

/-- The event of adding a rule. -/
def addedEvent (s : RuleSet) (r : Rule) : Event := .ruleAdded s.name r.name r.priority

/-- Changes the throttle to a valid one. -/
def setThrottle (s : RuleSet) (t : Throttle) : Except Problem RuleSet :=
  t.validate.map fun _ => { s with throttle := t }

def setMode (s : RuleSet) (mode : Mode) : RuleSet := { s with mode }

/-! ## Columns and rows that an edit concerns -/

/-- The rules that judge a column, by priority and then as they were added. -/
def rulesFor (s : RuleSet) (column : String) : List Rule :=
  (s.rules.filter (·.appliesTo column)).mergeSort fun a b => a.priority ≤ b.priority

/-- The columns that some rule judges. -/
def targets (s : RuleSet) : List String := Ascending.ofList (s.rules.flatMap (·.targets))

/-- The other columns whose rules read a column. -/
def dependents (s : RuleSet) (column : String) : List String :=
  Ascending.ofList <|
    ((s.rules.filter (·.dependsOn column)).flatMap (·.targets)).filter (· != column)

/-- The columns whose cells in other rows an edit of a column may concern. -/
def crossRowTargets (s : RuleSet) (column : String) : List String :=
  Ascending.ofList ((s.rules.filter (·.spansRowsOn column)).flatMap (·.targets))

/-- The rows that a scope makes a rule judge again after an edit of a column in a row. -/
def scopeRows (rows : Dataset) (row : Nat) (edited : String) : Scope → List Nat
  | .sameValue column =>
    if column = edited then
      match (rows.row? row).bind (·.filled? column) with
      | some cell => (rows.index column).rowsWith cell.toText
      | none => []
    else []
  | .allRows => rows.rows.map (·.row)

/-- The other rows whose cell of a target column an edit may concern, by the rows as they are. -/
def crossRowPeers (s : RuleSet) (row : Nat) (edited target : String) (rows : Dataset) : List Nat :=
  let concerned := s.rules.filter fun r => r.appliesTo target && r.spansRowsOn edited
  let found := concerned.flatMap fun r => r.scopes.flatMap (scopeRows rows row edited)
  (Ascending.ofList found).filter (· != row)

/-- The first column that a rule names and that is not there. -/
def missingColumn? (known : String → Bool) (r : Rule) : Option String :=
  (r.targets ++ r.dependencies).find? fun column => !known column

/-- Every column that a rule names is there. -/
def verifyColumns (s : RuleSet) (known : String → Bool) : Except Problem Unit :=
  match s.rules.findSome? fun r => (missingColumn? known r).map (r.name, ·) with
  | some (rule, column) => .error (.unknownColumn rule column)
  | none => .ok ()

end RuleSet

end CellRules
