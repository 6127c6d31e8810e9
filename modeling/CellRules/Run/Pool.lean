/-
CellRules.Run.Pool — pieces of work under way side by side.

A pool begins its pieces in order, at most so many at a time, and keeps their answers in the order
in which they end. Each piece under way is a strand; it may have to wait for a slot before it goes
on. The first piece that ends with a problem ends the pool. `Pool.step?` lets one strand take one
step; in which order the strands take theirs is left open.
-/
import CellRules.Run.Limiter
import CellRules.Run.Running

namespace CellRules

/-- Where a piece of work stands. -/
inductive Progress (α : Type) where
  /-- It has not asked for a slot. -/
  | fresh (work : Work α)
  | inLine (ticket : Ticket) (work : Work α)
  | running (work : Running α)

/-- A piece of work under way. -/
structure Strand (α : Type) where
  id : Nat
  /-- It has a slot. -/
  holds : Bool := false
  progress : Progress α

/-- Pieces of work under way side by side. -/
structure Pool (α : Type) where
  /-- A piece needs a slot. -/
  usesSlots : Bool
  /-- How many pieces may be under way. -/
  room : Nat
  /-- Pieces that are not under way yet. -/
  queue : List (Work α)
  strands : List (Strand α) := []
  nextId : Nat := 0
  /-- The answers, in the order in which the pieces ended. -/
  answers : List α := []
  problem : Option Problem := none

namespace Pool

/-- Begins as many pieces as there is room for. -/
def refill (p : Pool α) : Pool α :=
  let count := p.room - p.strands.length
  let begun := (p.queue.take count).zipIdx p.nextId |>.map fun (work, id) =>
    ({ id, progress := .fresh work } : Strand α)
  { p with
    queue := p.queue.drop count
    strands := p.strands ++ begun
    nextId := p.nextId + begun.length }

/-- A pool at its beginning. -/
def start (usesSlots : Bool) (room : Nat) (pieces : List (Work α)) : Pool α :=
  refill { usesSlots, room, queue := pieces }

/-- How the pool ended, if it has. -/
def result? (p : Pool α) : Option (Except Problem (List α)) :=
  match p.problem with
  | some problem => some (.error problem)
  | none => if p.strands.isEmpty && p.queue.isEmpty then some (.ok p.answers) else none

def strand? (p : Pool α) (id : Nat) : Option (Strand α) := p.strands.find? (·.id == id)

/-- Changes a strand. -/
def update (p : Pool α) (t : Strand α) : Pool α :=
  { p with strands := p.strands.map fun u => if u.id = t.id then t else u }

/-- What a strand holds of the limiter goes back. -/
def giveUp (t : Strand α) (l : Limiter) : Limiter :=
  match t.progress with
  | .inLine ticket _ => l.leave ticket
  | _ => if t.holds then l.release else l

/-- Ends the pool with a problem. -/
def fail (p : Pool α) (l : Limiter) (problem : Problem) : Pool α × Limiter :=
  ({ p with problem := some problem, strands := [], queue := [] },
    p.strands.foldl (fun l t => giveUp t l) l)

/-- Ends a strand with its answer, and begins the next piece. -/
def finish (p : Pool α) (t : Strand α) (l : Limiter) (answer : α) : Pool α × Limiter :=
  (refill { p with
      strands := p.strands.filter (·.id != t.id), answers := p.answers ++ [answer] },
    if t.holds then l.release else l)

/-- One step of a strand: the pool and the limiter after it, and what is logged. Nothing if the
strand has to wait or is not there. -/
def step? (now : Nat) (cancelled : Bool) (l : Limiter) (p : Pool α) (id : Nat) :
    Option (Pool α × Limiter × List Event) :=
  (p.strand? id).bind fun t =>
    let begin (holds : Bool) (work : Work α) : Pool α :=
      p.update { t with holds, progress := .running (.working work) }
    let quietly (r : Pool α × Limiter) : Pool α × Limiter × List Event := (r.1, r.2, [])
    match t.progress with
    | .fresh work =>
      if p.usesSlots then
        match l.join with
        | (.slot, _, l) => some (begin true work, l, [])
        | (.waiting, ticket, l) => some (p.update { t with progress := .inLine ticket work }, l, [])
        | (.closed, _, l) => some (quietly (p.fail l .schedulerClosed))
      else some (begin false work, l, [])
    | .inLine ticket work =>
      match l.attempt ticket with
      | .slot => some (begin true work, l.takeUp ticket, [])
      | .waiting => none
      | .closed => some (quietly (p.fail l .schedulerClosed))
    | .running work =>
      (work.step? now cancelled).map fun
        | .goesOn events next => (p.update { t with progress := .running next }, l, events)
        | .ends (.ok answer) => quietly (p.finish t l answer)
        | .ends (.error problem) => quietly (p.fail l problem)

/-- A strand can take a step. -/
def canStep (now : Nat) (cancelled : Bool) (l : Limiter) (t : Strand α) : Bool :=
  match t.progress with
  | .fresh _ => true
  | .inLine ticket _ => l.attempt ticket != .waiting
  | .running work => work.canStep now cancelled

/-- The strands that can take a step. -/
def able (now : Nat) (cancelled : Bool) (l : Limiter) (p : Pool α) : List Nat :=
  (p.strands.filter (canStep now cancelled l)).map (·.id)

/-- The time to which a strand sleeps. -/
def due? (p : Pool α) (id : Nat) : Option Nat :=
  (p.strand? id).bind fun t => match t.progress with
    | .running work => work.due?
    | _ => none

end Pool

end CellRules
