/-
CellRules.Run.Sink — where verdicts are delivered.

A sink keeps what it is told in order. An `Inbox` is a sink with a clock, for deliveries that are
still on their way and for waiting until enough have come.
-/
import CellRules.Verdict

namespace CellRules

/-- A verdict on a cell, as it was delivered. -/
structure Delivery where
  row : Nat
  column : String
  verdict : Verdict
  deriving DecidableEq, Repr

/-- What was delivered, in order. -/
structure Sink where
  deliveries : List Delivery := []
  deriving DecidableEq, Repr

namespace Sink

def deliver (s : Sink) (d : Delivery) : Sink := ⟨s.deliveries ++ [d]⟩

/-- The deliveries for a cell. -/
def forCell (s : Sink) (row : Nat) (column : String) : List Delivery :=
  s.deliveries.filter fun d => d.row == row && d.column == column

/-- The last verdict on a cell. -/
def latest? (s : Sink) (row : Nat) (column : String) : Option Verdict :=
  (s.forCell row column).getLast?.map (·.verdict)

def failureCount (s : Sink) : Nat := s.deliveries.countP (·.verdict.fails)

end Sink

/-- A sink with a clock, and the deliveries on their way to it with the times they come. -/
structure Inbox where
  sink : Sink := {}
  now : Nat := 0
  coming : List (Nat × Delivery) := []

namespace Inbox

/-- Delivers at once. -/
def deliver (i : Inbox) (d : Delivery) : Inbox := { i with sink := i.sink.deliver d }

/-- Delivers after some milliseconds, once somebody waits. -/
def deliverAfter (i : Inbox) (millis : Nat) (d : Delivery) : Inbox :=
  { i with coming := i.coming ++ [(i.now + millis, d)] }

/-- The time of the next delivery on its way. -/
def nextTime? (i : Inbox) : Option Nat :=
  match i.coming with
  | [] => none
  | (time, _) :: rest => some (rest.foldl (fun t (time, _) => min t time) time)

/-- Takes in what has come by now. -/
def takeIn (i : Inbox) : Inbox :=
  { i with
    sink := (i.coming.filter (·.1 ≤ i.now)).foldl (fun s (_, d) => s.deliver d) i.sink
    coming := i.coming.filter fun c => !(c.1 ≤ i.now) }

/-- Waits for a number of deliveries up to a time: whether they came. What comes at the end of that
time comes too late for the one who waits, and is taken in when somebody waits again. -/
def waitUntil (count deadline : Nat) : Nat → Inbox → Bool × Inbox
  | 0, i => (false, i)
  | fuel + 1, i =>
    if count ≤ i.sink.deliveries.length then (true, i)
    else if deadline ≤ i.now then (false, i)
    else
      let i := i.takeIn
      if count ≤ i.sink.deliveries.length then (true, i)
      else waitUntil count deadline fuel
        { i with now := i.nextTime?.elim deadline fun time => min time deadline }

/-- Waits for a number of deliveries for some milliseconds: whether they came. -/
def waitFor (i : Inbox) (count millis : Nat) : Bool × Inbox :=
  waitUntil count (i.now + millis) (i.coming.length + 2) i

end Inbox

end CellRules
