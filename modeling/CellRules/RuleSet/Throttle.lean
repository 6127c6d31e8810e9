/-
CellRules.RuleSet.Throttle — how fast a rule set works.

A throttle says how long an edit waits for the next one, how many evaluations may run at once, and
whether evaluation happens in the background and in batches.
-/
import CellRules.Json.Decode
import CellRules.Problem

namespace CellRules

/-- How fast a rule set works. -/
structure Throttle where
  /-- How many milliseconds a cell must rest after an edit before it is judged. -/
  debounce : Nat
  /-- How many evaluations may run at once. -/
  limit : Nat
  /-- Edited cells are judged in the background. -/
  background : Bool
  /-- Runs over all rows go batch by batch. -/
  batched : Bool
  batchSize : Nat
  /-- A running evaluation is cancelled when its cell is edited again. -/
  cancelSuperseded : Bool
  deriving DecidableEq, Repr

namespace Throttle

/-- For people who type. -/
def interactive : Throttle := ⟨300, 5, true, true, 100, false⟩

/-- One evaluation after the other, at once. -/
def synchronous : Throttle :=
  { interactive with debounce := 0, limit := 1, background := false, batched := false }

/-- There is room for at least one evaluation and one row. -/
def validate (t : Throttle) : Except Problem Unit :=
  if t.limit = 0 then
    .error (.configuration "max_concurrent_validations must be at least 1")
  else if t.batchSize = 0 then .error (.configuration "batch_size must be at least 1")
  else .ok ()

/-- Runs over all rows are split into batches. -/
def usesBatches (t : Throttle) : Bool := t.batched && t.background

/-- The members of a throttle in data files. -/
def members : List String :=
  ["debounce_ms", "max_concurrent_validations", "enable_async", "enable_batch", "batch_size",
    "cancel_superseded"]

def toJson (t : Throttle) : Json :=
  .object <| members.zip
    [.nat t.debounce, .nat t.limit, .bool t.background, .bool t.batched, .nat t.batchSize,
      .bool t.cancelSuperseded]

/-- A throttle from a data file; what is absent is as in another one. -/
def override? (t : Throttle) (j : Json) : Option Throttle :=
  match j.record? true members with
  | some [debounce, limit, background, batched, batchSize, cancelSuperseded] => do
    some
      { debounce := ← Json.withDefault? t.debounce Json.nat64? debounce
        limit := ← Json.withDefault? t.limit Json.nat64? limit
        background := ← Json.withDefault? t.background Json.bool? background
        batched := ← Json.withDefault? t.batched Json.bool? batched
        batchSize := ← Json.withDefault? t.batchSize Json.nat64? batchSize
        cancelSuperseded := ← Json.withDefault? t.cancelSuperseded Json.bool? cancelSuperseded }
  | _ => none

/-- A throttle from a data file; what is absent is as in the interactive one. -/
def ofJson? (j : Json) : Option Throttle := interactive.override? j

end Throttle

end CellRules
