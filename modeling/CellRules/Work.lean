/-
CellRules.Work — computations that log, take time, and can be cancelled.

A `Work` is a chain of log events, waits and checkpoints that ends in an answer or a problem. At a
checkpoint, and while it waits, it notices that it was cancelled and gives up. What it reads it has
read before, so the answer of work that is not cancelled does not depend on how long its waits take
(`Work.answer`).
-/
import CellRules.Log.Event
import CellRules.Problem

namespace CellRules

/-- A computation that logs, takes time, and can be cancelled. -/
inductive Work (α : Type) where
  | done (answer : Except Problem α)
  | log (event : Event) (rest : Work α)
  | wait (millis : Nat) (rest : Work α)
  | checkpoint (rest : Work α)

namespace Work

/-- Goes on with the answer; a problem ends both. -/
def bind : Work α → (α → Work β) → Work β
  | done (.ok a), f => f a
  | done (.error p), _ => done (.error p)
  | log event rest, f => log event (rest.bind f)
  | wait millis rest, f => wait millis (rest.bind f)
  | checkpoint rest, f => checkpoint (rest.bind f)

instance : Monad Work where
  pure a := done (.ok a)
  bind := bind

/-- Writes an event. -/
def write (event : Event) : Work Unit := log event (pure ())

/-- An answer that is there already. -/
def ofExcept (answer : Except Problem α) : Work α := done answer

/-- The answer if nobody cancels. -/
def answer : Work α → Except Problem α
  | done a => a
  | log _ rest | wait _ rest | checkpoint rest => rest.answer

/-- The events in order if nobody cancels. -/
def events : Work α → List Event
  | done _ => []
  | log event rest => event :: rest.events
  | wait _ rest | checkpoint rest => rest.events

/-- Whoever cancels at a time does so after all that can go on at that time; at time zero, before
the work begins. -/
def isCancelled (cancelAt : Option Nat) (now : Nat) : Bool :=
  cancelAt.any fun time => time == 0 || time < now

/-- Runs work that is cancelled at a time, or never. A wait that ends at that very time still
ends. -/
def runUntil (cancelAt : Option Nat) (now : Nat) : Work α → List Event × Except Problem α
  | done answer => ([], answer)
  | log event rest =>
    let (events, answer) := rest.runUntil cancelAt now
    (event :: events, answer)
  | wait millis rest =>
    if isCancelled cancelAt (now + millis) then ([], .error .cancelled)
    else rest.runUntil cancelAt (now + millis)
  | checkpoint rest =>
    if isCancelled cancelAt now then ([], .error .cancelled) else rest.runUntil cancelAt now

theorem runUntil_none (w : Work α) (now : Nat) : w.runUntil none now = (w.events, w.answer) := by
  induction w generalizing now with
  | done => rfl
  | log event rest ih => simp [runUntil, events, answer, ih]
  | wait millis rest ih => simp [runUntil, isCancelled, events, answer, ih]
  | checkpoint rest ih => simp [runUntil, isCancelled, events, answer, ih]

theorem answer_bind (w : Work α) (f : α → Work β) :
    (w.bind f).answer = w.answer.bind fun a => (f a).answer := by
  induction w with
  | done a => cases a <;> rfl
  | log _ _ ih | wait _ _ ih | checkpoint _ ih => simp [bind, answer, ih]

end Work

end CellRules
