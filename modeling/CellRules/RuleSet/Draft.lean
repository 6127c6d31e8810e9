/-
CellRules.RuleSet.Draft — rule sets in the making.

As with single rules, a rule set is made by steps: rules, common checks in short form, a mode and a
throttle. `SetDraft.build` takes the throttle first and then the rules in order, and stops at the
first that is incomplete or whose name is taken.
-/
import CellRules.Rule.Draft
import CellRules.RuleSet.Basic

namespace CellRules

/-- A decision about a rule set. -/
inductive SetStep where
  /-- A rule in the making. -/
  | draft (d : Draft)
  /-- A finished rule. -/
  | rule (r : Rule)
  | required (column : String)
  | email (column : String)
  | range (column : String) (min max : Float)
  | unique (column : String)
  | dateRange (start finish : String)
  /-- The column is required where another one has a value. -/
  | requiredWhen (column condition value : String)
  | mode (m : Mode)
  | throttle (t : Throttle)

/-- A rule set in the making. -/
structure SetDraft where
  name : String
  rules : List (Except Problem Rule) := []
  mode : Mode := .processAll
  throttle : Throttle := .interactive

namespace SetDraft

/-- Adds a rule made by steps. -/
def addRule (d : SetDraft) (name : String) (steps : List Step) : SetDraft :=
  { d with rules := d.rules ++ [(Draft.ofSteps name steps).build] }

/-- Takes one decision. -/
def apply (d : SetDraft) : SetStep → SetDraft
  | .draft draft => { d with rules := d.rules ++ [draft.build] }
  | .rule r => { d with rules := d.rules ++ [.ok r] }
  | .required column => d.addRule (column ++ "_required") [.forColumn column, .required]
  | .email column => d.addRule (column ++ "_email") [.forColumn column, .email]
  | .range column min max =>
    d.addRule (column ++ "_range") [.forColumn column, .inRange column min max]
  | .unique column => d.addRule (column ++ "_unique") [.forColumn column, .unique column]
  | .dateRange start finish =>
    d.addRule (start ++ "_before_" ++ finish)
      [.forColumns [start, finish], .startBeforeEnd start finish]
  | .requiredWhen column condition value =>
    d.addRule (column ++ "_required_when_" ++ condition)
      [.forColumn column, .columnEquals condition value, .required]
  | .mode m => { d with mode := m }
  | .throttle t => { d with throttle := t }

/-- The draft that some decisions make. -/
def ofSteps (name : String) (steps : List SetStep) : SetDraft := steps.foldl apply { name }

/-- Adds the rules in order. -/
def addRules : RuleSet → List (Except Problem Rule) → Work RuleSet
  | s, [] => pure s
  | _, .error p :: _ => .done (.error p)
  | s, .ok r :: rules =>
    match s.add r with
    | .ok s' => .log (s.addedEvent r) (addRules s' rules)
    | .error p => .done (.error p)

/-- The rule set, if the throttle is valid and every rule can be added. -/
def build (d : SetDraft) : Work RuleSet :=
  match ({ name := d.name, mode := d.mode : RuleSet }).setThrottle d.throttle with
  | .ok s => addRules s d.rules
  | .error p => .done (.error p)

/-- The rule set, if all the columns it names are there as well. -/
def buildFor (d : SetDraft) (known : String → Bool) : Work RuleSet := do
  let s ← d.build
  Work.ofExcept (s.verifyColumns known)
  pure s

end SetDraft

end CellRules
