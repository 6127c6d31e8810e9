/-
CellRules.Watch.Ledger — which cells are waiting to be judged again.

The ledger has an entry for every cell of which an evaluation is asked for and has not finished.
Each evaluation has a generation, a number that grows with every one asked for. An entry knows the
newest evaluation of its cell (`Request`), how many older ones are still running, and the
generation whose report was delivered last.
-/
import CellRules.Ascending

namespace CellRules

/-- A cell by its row and column. -/
structure CellKey where
  row : Nat
  column : String
  deriving DecidableEq, Repr

/-- An evaluation waits for its cell to rest, or is under way. -/
inductive Phase where
  | pending
  | running
  deriving DecidableEq, Repr

/-- The newest evaluation asked for of a cell. `fanOut` holds the edited columns on whose account
the cells of other rows are judged again once this one is. -/
structure Request where
  generation : Nat
  phase : Phase
  fanOut : List String
  deriving DecidableEq, Repr

/-- What the ledger knows of a cell. -/
structure CellState where
  /-- The newest evaluation, until it finishes. -/
  current : Option Request := none
  /-- The number of older evaluations that are still running. -/
  superseded : Nat := 0
  /-- The generation of the newest report that was delivered. -/
  delivered : Option Nat := none
  deriving DecidableEq, Repr

namespace CellState

/-- No evaluation of the cell is left. -/
def isIdle (c : CellState) : Bool := c.current.isNone && c.superseded == 0

/-- Another evaluation is asked for. It takes over the edited columns of one that has not begun; one
that is running goes on as an older one. -/
def request (c : CellState) (generation : Nat) (fanOut : List String) : CellState :=
  let next (fanOut : List String) : Option Request := some ⟨generation, .pending, fanOut⟩
  match c.current with
  | none => { c with current := next fanOut }
  | some old => match old.phase with
    | .pending => { c with current := next (Ascending.addAll fanOut old.fanOut) }
    | .running => { c with current := next fanOut, superseded := c.superseded + 1 }

/-- An evaluation of a generation finishes: the newest one, or an older one. -/
def finish (c : CellState) (generation : Nat) : CellState :=
  if c.current.any (·.generation == generation) then { c with current := none }
  else { c with superseded := c.superseded - 1 }

end CellState

/-- The cells of which an evaluation has not finished, each with what is known of it. -/
structure Ledger where
  entries : List (CellKey × CellState) := []
  deriving DecidableEq, Repr

namespace Ledger

/-- The number of cells. -/
def size (l : Ledger) : Nat := l.entries.length

def isEmpty (l : Ledger) : Bool := l.entries.isEmpty

/-- What is known of a cell. -/
def find? (l : Ledger) (key : CellKey) : Option CellState :=
  (l.entries.find? (·.1 == key)).map (·.2)

/-- The cell has an entry. -/
def contains (l : Ledger) (key : CellKey) : Bool := (l.find? key).isSome

/-- The entries with one set: in place if the cell is there, else at the end. -/
def setIn (key : CellKey) (c : CellState) : List (CellKey × CellState) → List (CellKey × CellState)
  | [] => [(key, c)]
  | (k, old) :: rest => if k = key then (key, c) :: rest else (k, old) :: setIn key c rest

/-- Sets what is known of a cell. -/
def set (l : Ledger) (key : CellKey) (c : CellState) : Ledger := ⟨setIn key c l.entries⟩

/-- Drops the entry of a cell. -/
def erase (l : Ledger) (key : CellKey) : Ledger := ⟨l.entries.filter (·.1 != key)⟩

/-- The newest evaluation of a cell. -/
def current? (l : Ledger) (key : CellKey) : Option Request := (l.find? key).bind (·.current)

/-- Another evaluation of a cell is asked for. -/
def request (l : Ledger) (key : CellKey) (generation : Nat) (fanOut : List String) : Ledger :=
  l.set key (((l.find? key).getD {}).request generation fanOut)

/-- An evaluation begins, if it is still the newest of its cell: it takes the edited columns out of
the entry. -/
def begin? (l : Ledger) (key : CellKey) (generation : Nat) : Option (List String × Ledger) :=
  match l.find? key with
  | none => none
  | some c => match c.current with
    | none => none
    | some r =>
      if r.generation = generation then
        some (r.fanOut, l.set key { c with current := some ⟨generation, .running, []⟩ })
      else none

/-- An evaluation may deliver its report, unless a newer one of its cell has or the cell has no
entry. -/
def claim? (l : Ledger) (key : CellKey) (generation : Nat) : Option Ledger :=
  match l.find? key with
  | none => none
  | some c =>
    if c.delivered.any (generation < ·) then none
    else some (l.set key { c with delivered := some generation })

/-- An evaluation finishes; the entry goes when it was the last of its cell. -/
def finish (l : Ledger) (key : CellKey) (generation : Nat) : Ledger :=
  match l.find? key with
  | none => l
  | some c =>
    let c := c.finish generation
    if c.isIdle then l.erase key else l.set key c

end Ledger

end CellRules
