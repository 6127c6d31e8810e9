/-
CellRules.Number.Shortest — the shortest decimal that reads back as a number.

A number `m · 2 ^ q` is the nearest one to every decimal in an interval around it. The interval
reaches half-way to either neighbour, its ends belong to it when `m` is even, and the lower half is
halved where the neighbour below has a smaller exponent. Of the decimals in the interval the one
with the fewest digits is taken, and of those the nearest.
-/
import CellRules.Number.Binary64

namespace CellRules.Number

/-- The number `digits · 10 ^ exponent`. -/
structure Decimal where
  digits : Nat
  exponent : Int
  deriving Repr, DecidableEq

/-- Which of two equally near decimals is taken. -/
inductive Tie where
  | up
  | even
  deriving Repr, DecidableEq

/-- Numerator and denominator of `(n · 2 ^ e) / 10 ^ k`. -/
def onGrid (n : Nat) (e k : Int) : Nat × Nat :=
  (n * twoTo e.toNat * tenTo (-k).toNat, twoTo (-e).toNat * tenTo k.toNat)

/-- The interval of a mantissa and an exponent, in quarters of the unit: its two ends, and whether
they belong to it. -/
def roundingInterval (m : Nat) (q : Int) : Nat × Nat × Bool :=
  let below := if m == mantissaRange && q > -1074 then 1 else 2
  (4 * m - below, 4 * m + 2, m % 2 == 0)

/-- The multiple of `10 ^ k` in the interval of `m · 2 ^ q` that is nearest to it, if there is one:
only the two multiples beside the number can be that. -/
def onGrid? (tie : Tie) (m : Nat) (q k : Int) : Option Nat :=
  let (low, high, closed) := roundingInterval m q
  let (num, den) := onGrid (4 * m) (q - 2) k
  let (lowNum, _) := onGrid low (q - 2) k
  let (highNum, _) := onGrid high (q - 2) k
  let floor := num / den
  let down : Bool := if closed then lowNum ≤ floor * den else lowNum < floor * den
  let up : Bool := if closed then (floor + 1) * den ≤ highNum else (floor + 1) * den < highNum
  let nearer := 2 * (num % den) < den ||
    (2 * (num % den) == den && tie == .even && floor % 2 == 0)
  match floor > 0 && down, up with
  | true, true => some (if nearer then floor else floor + 1)
  | true, false => some floor
  | false, true => some (floor + 1)
  | false, false => none

/-- The power of ten of the first digit of `m · 2 ^ q`, or one above it. -/
def leadingPower (m : Nat) (q : Int) : Int :=
  (((m.log2 : Int) + q + 1) * 30103).fdiv 100000 + 1

/-- Tries the grids from `10 ^ k` down, `tries` of them. -/
def shortestFrom (tie : Tie) (m : Nat) (q k : Int) : Nat → Decimal
  | 0 => ⟨0, 0⟩
  | tries + 1 =>
    match onGrid? tie m q k with
    | some digits => ⟨digits, k⟩
    | none => shortestFrom tie m q (k - 1) tries

/-- The shortest decimal of `m · 2 ^ q`, for a positive `m`. Seventeen digits always suffice. -/
def shortest (tie : Tie) (m : Nat) (q : Int) : Decimal :=
  shortestFrom tie m q (leadingPower m q) 20

end CellRules.Number
