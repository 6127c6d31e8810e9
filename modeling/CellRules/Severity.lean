/-
CellRules.Severity — how bad a failure is.

Three levels in order. Only an error makes a cell or a report invalid as a whole; warnings and
infos are recorded.
-/
import CellRules.Json.Decode

namespace CellRules

/-- The level of a failure. -/
inductive Severity where
  | info
  | warning
  | error
  deriving DecidableEq, Repr, Inhabited

namespace Severity

/-- The place of a level in the order. -/
def rank : Severity → Nat
  | info => 0
  | warning => 1
  | error => 2

instance : LE Severity := ⟨fun a b => a.rank ≤ b.rank⟩

instance (a b : Severity) : Decidable (a ≤ b) := inferInstanceAs (Decidable (a.rank ≤ b.rank))

instance : Max Severity := maxOfLe

/-- The word for a level. -/
def word : Severity → String
  | info => "info"
  | warning => "warning"
  | error => "error"

/-- The level with a capital, as programmers write it. -/
def name : Severity → String
  | info => "Info"
  | warning => "Warning"
  | error => "Error"

def all : List Severity := [info, warning, error]

/-- The level that a word names. -/
def ofWord? (s : String) : Option Severity := all.find? (·.word == s)

theorem ofWord?_word (s : Severity) : ofWord? s.word = some s := by
  cases s <;> decide

def toJson (s : Severity) : Json := .string s.word

def ofJson? (j : Json) : Option Severity := j.variant?.bind ofWord?

/-- The level of a rule or a failure for which none is given. -/
def standard : Severity := error

end Severity

end CellRules
