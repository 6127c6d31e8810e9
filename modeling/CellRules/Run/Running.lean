/-
CellRules.Run.Running — work under way.

Work that has begun goes on step by step, or sleeps to a time. `Running.step?` takes one step; only
one who sleeps has to wait for it, and one who is cancelled does not wait.
-/
import CellRules.Work

namespace CellRules

/-- Work under way. -/
inductive Running (α : Type) where
  | working (work : Work α)
  /-- It sleeps to a time. -/
  | asleep (due : Nat) (rest : Work α)

/-- What a step of work under way leads to. -/
inductive RunningStep (α : Type) where
  | goesOn (events : List Event) (next : Running α)
  | ends (answer : Except Problem α)

namespace Running

/-- One step; nothing if it has to sleep on. -/
def step? (now : Nat) (cancelled : Bool) : Running α → Option (RunningStep α)
  | working (.done answer) => some (.ends answer)
  | working (.log event rest) => some (.goesOn [event] (working rest))
  | working (.checkpoint rest) =>
    some (if cancelled then .ends (.error .cancelled) else .goesOn [] (working rest))
  | working (.wait millis rest) =>
    some (if cancelled then .ends (.error .cancelled) else .goesOn [] (asleep (now + millis) rest))
  | asleep due rest =>
    if cancelled then some (.ends (.error .cancelled))
    else if due ≤ now then some (.goesOn [] (working rest))
    else none

/-- It can take a step. -/
def canStep (now : Nat) (cancelled : Bool) : Running α → Bool
  | working _ => true
  | asleep due _ => cancelled || due ≤ now

/-- The time to which it sleeps. -/
def due? : Running α → Option Nat
  | working _ => none
  | asleep due _ => some due

/-- The work that is left. -/
def rest : Running α → Work α
  | working work => work
  | asleep _ rest => rest

theorem isSome_step? (now : Nat) (cancelled : Bool) (r : Running α) :
    (r.step? now cancelled).isSome = r.canStep now cancelled := by
  cases r with
  | working work => cases work <;> rfl
  | asleep due rest =>
    cases cancelled
    · by_cases h : due ≤ now <;> simp [step?, canStep, h]
    · simp [step?, canStep]

end Running

end CellRules
