/-
CellRules.Rule.Validator — the checks a rule runs.

A validator looks at a row at once, looks at it and answers later, or looks at a row among all
rows. Whichever it is, it may break down and say how instead of giving a verdict.
-/
import CellRules.Row.Dataset
import CellRules.Rule.Template
import CellRules.Verdict

namespace CellRules

/-- A verdict, or how the check broke down. -/
abbrev Answer := Except String Verdict

/-- What a check that takes time gives when it is started: it breaks down at once, or answers after
some milliseconds. -/
inductive Promise where
  | broken (detail : String)
  | after (millis : Nat) (answer : Answer)

/-- A check of a rule. -/
inductive Validator where
  | prompt (judge : RowContext → Answer)
  | delayed (start : RowContext → Promise)
  | crossRow (judge : RowContext → Dataset → Answer)

/-- The kinds of validators in the order a rule runs them. -/
inductive Stage where
  | sync
  | async
  | crossRow
  deriving DecidableEq, Repr

namespace Stage

def rank : Stage → Nat
  | sync => 0
  | async => 1
  | crossRow => 2

def word : Stage → String
  | sync => "sync"
  | async => "async"
  | crossRow => "cross_row"

end Stage

/-- How a rule words the failures of the checks it was not given ready-made: at its own severity
and, if it has one, with its own message. -/
structure Style where
  severity : Severity
  template : Option Template

/-- A failure reworded; a success stays. -/
def Style.apply (style : Style) (ctx : RowContext) (v : Verdict) : Verdict :=
  if v.passes then v
  else
    .failure style.severity <| match style.template with
      | some template => template.render ctx
      | none => v.message

namespace Validator

def stage : Validator → Stage
  | prompt _ => .sync
  | delayed _ => .async
  | crossRow _ => .crossRow

/-- The validator with its failures reworded. -/
def restyle (style : Style) : Validator → Validator
  | prompt judge => prompt fun ctx => (judge ctx).map (style.apply ctx)
  | delayed start => delayed fun ctx =>
    match start ctx with
    | .broken detail => .broken detail
    | .after millis answer => .after millis (answer.map (style.apply ctx))
  | crossRow judge => crossRow fun ctx rows => (judge ctx rows).map (style.apply ctx)

end Validator

end CellRules
