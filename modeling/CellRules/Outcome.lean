/-
CellRules.Outcome — what became of a rule at a cell, and of a cell under its rules.

An `Outcome` is one rule's answer; a `CellReport` gathers the outcomes of the rules of a cell in the
order they ran, with one verdict for all.
-/
import CellRules.Verdict

namespace CellRules

/-- What became of a rule: it passed, it failed, its guard kept it from running, or a guard or a
check broke down. -/
inductive Status where
  | passed
  | failed
  | skipped
  | faulted
  deriving DecidableEq, Repr

namespace Status

def word : Status → String
  | passed => "passed"
  | failed => "failed"
  | skipped => "skipped"
  | faulted => "faulted"

/-- The status with a capital, as log events name it. -/
def label : Status → String
  | passed => "Passed"
  | failed => "Failed"
  | skipped => "Skipped"
  | faulted => "Faulted"

def all : List Status := [passed, failed, skipped, faulted]

def ofJson? (j : Json) : Option Status :=
  j.variant?.bind fun s => all.find? (·.word == s)

end Status

/-- One rule's answer at a cell. -/
structure Outcome where
  rule : String
  status : Status
  verdict : Verdict
  deriving DecidableEq, Repr

namespace Outcome

/-- The outcome of a rule whose guard is false. -/
def skip (rule : String) : Outcome := ⟨rule, .skipped, .success⟩

def fails (o : Outcome) : Bool := o.verdict.fails

def ofJson? (j : Json) : Option Outcome :=
  match j.record? false ["rule_name", "status", "result"] with
  | some [rule, status, verdict] => do
    some
      { rule := ← rule.bind Json.string?
        status := ← status.bind Status.ofJson?
        verdict := ← verdict.bind Verdict.ofJson? }
  | _ => none

end Outcome

/-- What the rules of a cell say about it. `halted` tells that rules were left out because an error
came before them. -/
structure CellReport where
  row : Nat
  column : String
  verdict : Verdict
  outcomes : List Outcome
  halted : Bool
  deriving DecidableEq, Repr

namespace CellReport

/-- The report of some outcomes, their verdicts merged. -/
def ofOutcomes (row : Nat) (column : String) (outcomes : List Outcome) (halted : Bool) :
    CellReport :=
  { row, column, verdict := Verdict.merge (outcomes.map Outcome.verdict), outcomes, halted }

def passes (r : CellReport) : Bool := r.verdict.passes

def failures (r : CellReport) : List Outcome := r.outcomes.filter Outcome.fails

/-- The messages of the failures in order. -/
def messages (r : CellReport) : List String := r.failures.map (·.verdict.message)

/-- The number of rules whose guard let them run. -/
def evaluatedCount (r : CellReport) : Nat := r.outcomes.countP (·.status != .skipped)

def skippedCount (r : CellReport) : Nat := r.outcomes.length - r.evaluatedCount

/-- The number of rules that broke down. -/
def faultCount (r : CellReport) : Nat := r.outcomes.countP (·.status == .faulted)

def ofJson? (j : Json) : Option CellReport :=
  match j.record? false ["row", "column", "result", "outcomes", "halted"] with
  | some [row, column, verdict, outcomes, halted] => do
    some
      { row := ← row.bind Json.nat64?
        column := ← column.bind Json.string?
        verdict := ← verdict.bind Verdict.ofJson?
        outcomes := ← outcomes.bind (Json.list? Outcome.ofJson?)
        halted := ← halted.bind Json.bool? }
  | _ => none

end CellReport

end CellRules
