/-
CellRules.Number.Numeral — reading a number.

A numeral is an optional sign and either digits with an optional point (a digit on one side of it
at least) and an optional power of ten, or one of the words `inf`, `infinity` and `nan` in any
case. Its value is the nearest float; one too large is infinite.
-/
import CellRules.Number.Binary64

namespace CellRules.Number

/-- The number that a text of decimal digits stands for. -/
def natOfDigits (digits : List Char) : Nat :=
  digits.foldl (fun n c => 10 * n + (c.toNat - '0'.toNat)) 0

/-- Splits off the digits at the start. -/
def spanDigits (cs : List Char) : List Char × List Char :=
  (cs.takeWhile Char.isDigit, cs.dropWhile Char.isDigit)

/-- Splits off a sign: whether it is a minus, and the rest. -/
def spanSign : List Char → Bool × List Char
  | '-' :: cs => (true, cs)
  | '+' :: cs => (false, cs)
  | cs => (false, cs)

/-- A power of ten: nothing, or `e` with a signed number up to the end. -/
def exponent? : List Char → Option Int
  | [] => some 0
  | e :: cs =>
    if e == 'e' || e == 'E' then
      let (negative, cs) := spanSign cs
      let (digits, rest) := spanDigits cs
      if digits.isEmpty || !rest.isEmpty then none
      else some (if negative then -(natOfDigits digits : Int) else natOfDigits digits)
    else none

/-- The float nearest to `n · 10 ^ e`. A number past either end of the floats is decided by its
count of digits alone. -/
def ofDecimal (negative : Bool) (n : Nat) (e : Int) : Float :=
  let point : Int := (Nat.toDigits 10 n).length + e
  if n == 0 || point < -330 then ofMagnitudeBits negative 0
  else if 310 < point then ofMagnitudeBits negative infinityBits
  else nearest negative (n * tenTo e.toNat) (tenTo (-e).toNat)

/-- Digits, point and power of ten without a sign. -/
def unsignedDecimal? (negative : Bool) (cs : List Char) : Option Float :=
  let (whole, rest) := spanDigits cs
  let (fraction, rest) := match rest with
    | '.' :: rest => spanDigits rest
    | rest => ([], rest)
  if whole.isEmpty && fraction.isEmpty then none
  else (exponent? rest).map fun e =>
    ofDecimal negative (natOfDigits (whole ++ fraction)) (e - fraction.length)

/-- The value of a numeral; `none` if the text is not one. -/
def ofNumeral? (text : String) : Option Float :=
  let (negative, cs) := spanSign text.toList
  let word := String.ofList (cs.map Char.toLower)
  if word == "inf" || word == "infinity" then some (ofMagnitudeBits negative infinityBits)
  else if word == "nan" then some (ofMagnitudeBits negative (infinityBits + twoTo 51))
  else unsignedDecimal? negative cs

end CellRules.Number
