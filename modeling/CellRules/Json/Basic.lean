/-
CellRules.Json.Basic — the values of the JSON notation.

Numbers keep the digits they are written with, and an object keeps its members in order, repeated
names included. `unreadable` stands for a token that can be passed over but has no value: a string
with half a surrogate pair in it, or an object with such a member name.
-/

namespace CellRules

/-- A value of the JSON notation. -/
inductive Json where
  | null
  | bool (b : Bool)
  | number (numeral : String)
  | string (s : String)
  | array (items : List Json)
  | object (members : List (String × Json))
  | unreadable
  deriving Inhabited, Repr

/-- A whole number. -/
def Json.int (i : Int) : Json := .number (toString i)

/-- A natural number. -/
def Json.nat (n : Nat) : Json := .number (toString n)

/-- A text, or null. -/
def Json.option (f : α → Json) : Option α → Json
  | some a => f a
  | none => .null

end CellRules
