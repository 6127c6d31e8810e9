/-
CellRules.Text.Span — runs of code points.

Character classes that no rule describes are given as lists of runs; a character belongs to the
class if its code point lies in one of them.
-/

namespace CellRules.Text

/-- The code points from the first number to the second, both included. -/
abbrev Span := Nat × Nat

/-- The character's code point lies in one of the runs. -/
def inSpans (spans : List Span) (c : Char) : Bool :=
  spans.any fun s => s.1 ≤ c.toNat && c.toNat ≤ s.2

theorem inSpans_iff {spans : List Span} {c : Char} :
    inSpans spans c = true ↔ ∃ s ∈ spans, s.1 ≤ c.toNat ∧ c.toNat ≤ s.2 := by
  simp [inSpans]

end CellRules.Text
