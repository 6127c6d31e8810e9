/-
CellRules.Run.Limiter — slots and the line before them.

A limiter has a number of slots. Who finds none free waits in line; a slot given back goes to the
first in line at once, before that one has taken it up. Closing ends all waiting; slots in use stay
in use until they are given back.
-/

namespace CellRules

/-- A place in line. -/
abbrev Ticket := Nat

/-- Slots and the line before them. -/
structure Limiter where
  limit : Nat
  /-- Slots that nobody has. -/
  free : Nat
  /-- Who waits, the longest first. -/
  line : List Ticket := []
  /-- Who was given a slot and has not taken it up. -/
  served : List Ticket := []
  nextTicket : Ticket := 0
  closed : Bool := false
  deriving DecidableEq, Repr

namespace Limiter

/-- A limiter with all slots free. -/
def ofLimit (limit : Nat) : Limiter := { limit, free := limit }

/-- The number of slots that are not free. -/
def inUse (l : Limiter) : Nat := l.limit - l.free

/-- How an attempt to get a slot stands. -/
inductive Attempt where
  | slot
  | waiting
  | closed
  deriving DecidableEq, Repr

/-- Asks for a slot: takes a free one or waits in line. The ticket counts only if one waits. -/
def join (l : Limiter) : Attempt × Ticket × Limiter :=
  if l.closed then (.closed, l.nextTicket, l)
  else if 0 < l.free then (.slot, l.nextTicket, { l with free := l.free - 1 })
  else (.waiting, l.nextTicket,
    { l with line := l.line ++ [l.nextTicket], nextTicket := l.nextTicket + 1 })

/-- Gives a slot back. It goes to the first in line. -/
def release (l : Limiter) : Limiter :=
  match l.line with
  | ticket :: line => { l with line, served := l.served ++ [ticket] }
  | [] => { l with free := l.free + 1 }

/-- Leaves the line; a slot that was given already goes back. -/
def leave (l : Limiter) (ticket : Ticket) : Limiter :=
  if ticket ∈ l.served then { l with served := l.served.filter (· != ticket) : Limiter }.release
  else { l with line := l.line.filter (· != ticket) }

/-- How the one with a ticket stands. -/
def attempt (l : Limiter) (ticket : Ticket) : Attempt :=
  if l.closed then .closed else if ticket ∈ l.served then .slot else .waiting

/-- Takes up the slot that was given. -/
def takeUp (l : Limiter) (ticket : Ticket) : Limiter :=
  { l with served := l.served.filter (· != ticket) }

/-- Ends all waiting. -/
def close (l : Limiter) : Limiter := { l with line := [], closed := true }

/-- Who would be given a slot if one were given back. -/
def next? (l : Limiter) : Option Ticket := l.line.head?

end Limiter

end CellRules
