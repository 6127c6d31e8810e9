/-
CellRules.Number.Written — numbers as text.

Both forms write the shortest digits that read back. The plain form never uses an exponent and
leaves out an empty fraction; the form of data files keeps a fraction, turns to an exponent far
from one, and has no text for what is not finite. `oneDecimal` writes the exact value to one place.
-/
import CellRules.Number.Shortest

namespace CellRules.Number

/-- The digits of a natural. -/
def digitsOf (n : Nat) : List Char := Nat.toDigits 10 n

/-- A text of zeros. -/
def zeros (n : Nat) : List Char := List.replicate n '0'

/-- The digits with a point `point` places after their start, zeros filled in on either side. -/
def positional (digits : List Char) (point : Int) : List Char :=
  if point ≤ 0 then ['0', '.'] ++ zeros (-point).toNat ++ digits
  else if point < digits.length then
    digits.take point.toNat ++ ['.'] ++ digits.drop point.toNat
  else digits ++ zeros (point.toNat - digits.length)

/-- The place of the point in a decimal, counted from the start of its digits. -/
def Decimal.point (d : Decimal) : Int :=
  (digitsOf d.digits).length + d.exponent

def signed (negative : Bool) (cs : List Char) : String :=
  String.ofList (if negative then '-' :: cs else cs)

/-- The plain form: no exponent, no empty fraction. -/
def plain (x : Float) : String :=
  match parts x with
  | .nan => "NaN"
  | .infinite negative => signed negative ['i', 'n', 'f']
  | .finite negative 0 _ => signed negative ['0']
  | .finite negative m q =>
    let d := shortest .up m q
    signed negative (positional (digitsOf d.digits) d.point)

/-- One digit, the others behind a point, and the power of ten with its sign. -/
def scientific (digits : List Char) (power : Int) : List Char :=
  let mantissa := match digits with
    | [] => ['0']
    | [d] => [d]
    | d :: ds => d :: '.' :: ds
  mantissa ++ ['e', if power < 0 then '-' else '+'] ++ digitsOf power.natAbs

/-- The form of data files: positional from `10 ^ -5` to below `10 ^ 16`, with `.0` after a whole
number; nothing for what is not finite. -/
def data? (x : Float) : Option String :=
  match parts x with
  | .nan | .infinite _ => none
  | .finite negative 0 _ => some (signed negative ['0', '.', '0'])
  | .finite negative m q =>
    let d := shortest .even m q
    let digits := digitsOf d.digits
    let text :=
      if d.point ≤ -5 || 16 < d.point then scientific digits (d.point - 1)
      else if digits.length ≤ d.point then positional digits d.point ++ ['.', '0']
      else positional digits d.point
    some (signed negative text)

/-- The exact value rounded to one decimal place, a half to the even digit. -/
def oneDecimal (x : Float) : String :=
  match parts x with
  | .nan => "NaN"
  | .infinite negative => signed negative ['i', 'n', 'f']
  | .finite negative m q =>
    let tenths := roundQuotient (10 * m * twoTo q.toNat) (twoTo (-q).toNat)
    signed negative (digitsOf (tenths / 10) ++ ['.'] ++ digitsOf (tenths % 10))

end CellRules.Number
