/-
CellRules.Verdict — what a check says about a cell.

A verdict passes, or fails with a severity and a message. A failure made here always has a message
that is not blank. `merge` gathers the verdicts on one cell: the worst severity of the failures and
their messages in order.
-/
import CellRules.Severity
import CellRules.Text.Blank

namespace CellRules

/-- What a check says about a cell. Data files may hold verdicts that no check makes. -/
structure Verdict where
  passes : Bool
  severity : Severity
  message : String
  deriving DecidableEq, Repr, Inhabited

namespace Verdict

/-- The message of a failure that was given none. -/
def defaultMessage : String := "Validation failed"

/-- What stands between the messages of merged failures. -/
def separator : String := "; "

def success : Verdict := ⟨true, .info, ""⟩

/-- A failure; a blank message is replaced by the default one. -/
def failure (severity : Severity) (message : String) : Verdict :=
  ⟨false, severity, if Text.isBlank message then defaultMessage else message⟩

def error (message : String) : Verdict := failure .error message

/-- Passes if the condition holds. -/
def ofCheck (condition : Bool) (severity : Severity) (message : String) : Verdict :=
  if condition then success else failure severity message

def fails (v : Verdict) : Bool := !v.passes

/-- A failure at the level of errors. -/
def isError (v : Verdict) : Bool := v.fails && v.severity == .error

/-- The worst of some severities, if there are any. -/
def worst : List Severity → Option Severity
  | [] => none
  | s :: ss => some (ss.foldl max s)

/-- One verdict for many: passes if all do, else fails at the worst severity of the failures with
their messages in order. -/
def merge (verdicts : List Verdict) : Verdict :=
  let failures := verdicts.filter fails
  match worst (failures.map severity) with
  | none => success
  | some severity => failure severity (separator.intercalate (failures.map message))

/-- A message that is not blank is kept. -/
theorem failure_of_not_blank {severity : Severity} {message : String}
    (h : Text.isBlank message = false) : failure severity message = ⟨false, severity, message⟩ := by
  simp [failure, h]

def toJson (v : Verdict) : Json :=
  .object
    [("is_valid", .bool v.passes), ("severity", v.severity.toJson), ("message", .string v.message)]

def ofJson? (j : Json) : Option Verdict :=
  match j.record? false ["is_valid", "severity", "message"] with
  | some [passes, severity, message] => do
    some
      { passes := ← passes.bind Json.bool?
        severity := ← severity.bind Severity.ofJson?
        message := ← message.bind Json.string? }
  | _ => none

end Verdict

end CellRules
