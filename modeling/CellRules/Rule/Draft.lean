/-
CellRules.Rule.Draft — rules in the making.

A draft is made by steps, each a small decision about the rule. `Draft.build` checks that nothing is
missing and puts the validators in their order. Checks that a step names are worded in the rule's
style; a check that a step brings along keeps its own words.
-/
import CellRules.Check.DateOrder
import CellRules.Check.Phone
import CellRules.Check.Range
import CellRules.Check.Required
import CellRules.Check.Unique
import CellRules.Rule.Basic

namespace CellRules

/-- A decision about a rule. -/
inductive Step where
  | forColumn (column : String)
  | forColumns (columns : List String)
  | dependsOn (column : String)
  | description (text : String)
  | severity (level : Severity)
  | priority (value : Int)
  | message (text : String)
  /-- Replaces the guard. -/
  | guardBy (guard : Guard)
  /-- Adds a condition to the guard. -/
  | andGuard (guard : Guard)
  /-- Adds an alternative to the guard. -/
  | orGuard (guard : Guard)
  | columnEquals (column value : String)
  | columnHasValue (column : String)
  | columnIsEmpty (column : String)
  | columnContains (column fragment : String)
  /-- Brings a check of the row. -/
  | judge (check : RowContext → Answer)
  /-- Brings a check that takes time. -/
  | judgeLater (start : RowContext → Promise)
  /-- Brings a check among all rows. -/
  | judgeAmong (check : RowContext → Dataset → Answer)
  /-- The condition holds. -/
  | satisfies (condition : Guard)
  | required
  | requiredFields (columns : List String)
  | inRange (column : String) (min max : Float)
  | startBeforeEnd (start finish : String)
  | unique (column : String)
  | email
  | phone

/-- A rule in the making. -/
structure Draft where
  name : String
  description : Option String := none
  targets : List String := []
  dependencies : List String := []
  /-- The columns that named guards and checks read. -/
  reads : List String := []
  guard : Option Guard := none
  /-- The validators in the order they were added, each with whether it takes the rule's style. -/
  validators : List (Bool × Validator) := []
  scopes : List Scope := []
  severity : Severity := Severity.standard
  priority : Int := 0
  message : Option String := none

namespace Draft

/-- Notes that the rule reads some columns. -/
def reading (d : Draft) (columns : List String) : Draft :=
  { d with reads := Ascending.addAll d.reads columns }

/-- Adds a check with words of its own. -/
def withOwn (d : Draft) (v : Validator) : Draft :=
  { d with validators := d.validators ++ [(false, v)] }

/-- Adds a check in the rule's style. -/
def withStyled (d : Draft) (v : Validator) : Draft :=
  { d with validators := d.validators ++ [(true, v)] }

/-- Adds a check of the row in the rule's style that never breaks down. -/
def withCheck (d : Draft) (check : RowContext → Verdict) : Draft :=
  d.withStyled (.prompt fun ctx => .ok (check ctx))

def withScope (d : Draft) (scope : Scope) : Draft := { d with scopes := d.scopes ++ [scope] }

/-- Combines a condition with the guard so far; without one the condition is the guard. -/
def combineGuard (d : Draft) (combine : Guard → Guard → Guard) (guard : Guard) : Draft :=
  { d with guard := some (match d.guard with
    | some first => combine first guard
    | none => guard) }

/-- The check of a condition. -/
def conditionCheck (rule : String) (condition : Guard) (ctx : RowContext) : Answer :=
  (condition ctx).map fun holds =>
    .ofCheck holds .error ("Rule " ++ Problem.named rule ++ " failed")

/-- A check of the judged column; it passes where there is none. -/
def ofColumn (check : String → RowContext → Verdict) (ctx : RowContext) : Verdict :=
  match ctx.column with
  | some column => check column ctx
  | none => .success

/-- Takes one decision. -/
def apply (d : Draft) : Step → Draft
  | .forColumn column => { d with targets := Ascending.insert column d.targets }
  | .forColumns columns => { d with targets := Ascending.addAll d.targets columns }
  | .dependsOn column => { d with dependencies := Ascending.insert column d.dependencies }
  | .description text => { d with description := some text }
  | .severity level => { d with severity := level }
  | .priority value => { d with priority := value }
  | .message text => { d with message := some text }
  | .guardBy guard => { d with guard := some guard }
  | .andGuard guard => d.combineGuard Guard.both guard
  | .orGuard guard => d.combineGuard Guard.either guard
  | .columnEquals column value =>
    { d.reading [column] with guard := some (Guard.equals column value) }
  | .columnHasValue column => { d.reading [column] with guard := some (Guard.hasValue column) }
  | .columnIsEmpty column => { d.reading [column] with guard := some (Guard.isEmpty column) }
  | .columnContains column fragment =>
    { d.reading [column] with guard := some (Guard.holds column fragment) }
  | .judge check => d.withOwn (.prompt check)
  | .judgeLater start => d.withOwn (.delayed start)
  | .judgeAmong check => (d.withOwn (.crossRow check)).withScope .allRows
  | .satisfies condition => d.withStyled (.prompt (conditionCheck d.name condition))
  | .required => d.withCheck Check.required
  | .requiredFields columns => (d.reading columns).withCheck (Check.requiredFields columns)
  | .inRange column min max => (d.reading [column]).withCheck (Check.inRange column min max)
  | .startBeforeEnd start finish =>
    (d.reading [start, finish]).withCheck (Check.startBeforeEnd start finish)
  | .unique column =>
    ((d.reading [column]).withScope (.sameValue column)).withStyled
      (.crossRow fun ctx rows => .ok (Check.unique column ctx rows))
  | .email => d.withCheck (ofColumn Check.email)
  | .phone => d.withCheck (ofColumn Check.phone)

/-- The draft that some decisions make. -/
def ofSteps (name : String) (steps : List Step) : Draft := steps.foldl apply { name }

/-- The style of the rule. A blank message is no message. -/
def style (d : Draft) : Style :=
  let message := d.message.getD ""
  { severity := d.severity
    template := if Text.isBlank message then none else some ⟨d.name, message⟩ }

/-- The validators in the order the rule runs them: by stage, and as they were added. -/
def ordered (d : Draft) : List Validator :=
  let styled := d.validators.map fun (takesStyle, v) =>
    if takesStyle then v.restyle d.style else v
  styled.mergeSort fun a b => a.stage.rank ≤ b.stage.rank

/-- The rule, if nothing is missing. What named guards and checks read is a dependency unless the
rule judges it. -/
def build (d : Draft) : Except Problem Rule :=
  if Text.isBlank d.name then .error (.incompleteRule d.name "rule name is empty")
  else if d.targets.isEmpty then .error (.incompleteRule d.name "no target column")
  else if d.validators.isEmpty then .error (.incompleteRule d.name "no validator attached")
  else .ok
    { name := d.name
      description := d.description
      targets := d.targets
      dependencies :=
        Ascending.addAll d.dependencies (d.reads.filter fun c => !d.targets.contains c)
      guard := d.guard
      validators := d.ordered
      scopes := d.scopes
      severity := d.severity
      priority := d.priority
      message := d.message.getD "" }

end Draft

end CellRules
