/-
CellRules.Report.Options — what a written report shows.
-/
import CellRules.Report.Basic

namespace CellRules.Report

/-- What a written report shows. -/
structure Options where
  metrics : Bool := true
  issues : Bool := true
  /-- At most so many issues. -/
  maxIssues : Option Nat := none
  colors : Bool := true
  timestamp : Bool := true
  deriving DecidableEq, Repr

namespace Options

def standard : Options := {}

def detailed : Options := standard

/-- The counts and nothing else. -/
def minimal : Options :=
  { issues := false, maxIssues := some 0, colors := false, timestamp := false }

/-- For the log of an automatic check. -/
def ci : Options := { maxIssues := some 50, colors := false }

/-- The options by name. -/
def presets : List (String × Options) :=
  [("default", standard), ("minimal", minimal), ("detailed", detailed), ("ci", ci)]

/-- The issues that are shown. -/
def visible (o : Options) (r : Report) : List Issue :=
  if o.issues then
    match o.maxIssues with
    | some max => r.issues.take max
    | none => r.issues
  else []

/-- The number of issues that are left out. -/
def hiddenCount (o : Options) (r : Report) : Nat := r.issues.length - (o.visible r).length

end Options

/-- Lines, each with its end. -/
def unlines (lines : List String) : String :=
  String.join (lines.map (· ++ "\n"))

/-- Lines that are there under a condition. -/
def linesIf (condition : Bool) (lines : List String) : List String :=
  if condition then lines else []

end CellRules.Report
