/-
CellRules.Rule.Evaluation — running a rule on a row.

First the guard: if it is false the rule is skipped. Then the validators in order, and the first
that does not pass settles the outcome. A breakdown anywhere is a fault of the rule, which fails the
cell as an error. Before each validator there is a checkpoint.
-/
import CellRules.Rule.Basic
import CellRules.Work

namespace CellRules.Rule

/-- The failure of a rule that broke down. -/
def faultVerdict (rule detail : String) : Verdict :=
  .error ("Rule " ++ Problem.named rule ++ " failed to execute: " ++ detail)

/-- The outcome of a rule that broke down at some stage. -/
def fault (r : Rule) (ctx : RowContext) (stage detail : String) : Work Outcome :=
  .log (.checkFaulted r.name stage ctx.row ctx.column detail) <|
    pure ⟨r.name, .faulted, faultVerdict r.name detail⟩

/-- Settles the outcome by a validator's answer, unless it passes; then goes on. -/
def settle (r : Rule) (ctx : RowContext) (stage : Stage) (next : Work Outcome) :
    Answer → Work Outcome
  | .ok v =>
    if v.passes then next
    else .log (.ruleFailed r.name stage.word ctx.row v) (pure ⟨r.name, .failed, v⟩)
  | .error detail => r.fault ctx stage.word detail

/-- Runs one validator and goes on if it passes. -/
def runValidator (r : Rule) (ctx : RowContext) (rows : Dataset) (next : Work Outcome) :
    Validator → Work Outcome
  | .prompt judge => r.settle ctx .sync next (judge ctx)
  | .crossRow judge => r.settle ctx .crossRow next (judge ctx rows)
  | .delayed start =>
    match start ctx with
    | .broken detail => r.fault ctx Stage.async.word detail
    | .after 0 answer => r.settle ctx .async next answer
    | .after millis answer => .wait millis (r.settle ctx .async next answer)

/-- Runs the validators in order. -/
def runValidators (r : Rule) (ctx : RowContext) (rows : Dataset) : List Validator → Work Outcome
  | [] => .log (.rulePassed r.name ctx.row) (pure ⟨r.name, .passed, .success⟩)
  | v :: vs => .checkpoint (r.runValidator ctx rows (r.runValidators ctx rows vs) v)

/-- Runs the rule on a row among others. -/
def evaluate (r : Rule) (ctx : RowContext) (rows : Dataset) : Work Outcome :=
  match r.guard with
  | none => r.runValidators ctx rows r.validators
  | some guard =>
    match guard ctx with
    | .ok true => r.runValidators ctx rows r.validators
    | .ok false => .log (.guardFalse r.name ctx.row ctx.column) (pure (.skip r.name))
    | .error detail => r.fault ctx "guard" detail

end CellRules.Rule
