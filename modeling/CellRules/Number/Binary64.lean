/-
CellRules.Number.Binary64 — the numbers of binary floating point, taken apart and put together.

A finite number is a mantissa times a power of two. `parts` takes the bits of a float apart;
`nearestBits` finds the float nearest to a quotient of naturals, the even neighbour when two are
equally near.
-/

namespace CellRules.Number

/-- What the bits of a float stand for. -/
inductive Parts where
  /-- The number `mantissa · 2 ^ exponent`, with its sign. -/
  | finite (negative : Bool) (mantissa : Nat) (exponent : Int)
  | infinite (negative : Bool)
  | nan
  deriving Repr, DecidableEq

/-- A power of two. -/
def twoTo (exponent : Nat) : Nat := Nat.pow 2 exponent

/-- A power of ten. -/
def tenTo (exponent : Nat) : Nat := Nat.pow 10 exponent

/-- The number of values a mantissa below the leading bit can take. -/
def mantissaRange : Nat := twoTo 52

/-- Takes the sixty-four bits apart. -/
def partsOfBits (bits : Nat) : Parts :=
  let negative := bits / twoTo 63 % 2 == 1
  let exponent := bits / mantissaRange % 2048
  let fraction := bits % mantissaRange
  if exponent == 2047 then
    if fraction == 0 then .infinite negative else .nan
  else if exponent == 0 then .finite negative fraction (-1074)
  else .finite negative (mantissaRange + fraction) ((exponent : Int) - 1075)

/-- What a float stands for. -/
def parts (x : Float) : Parts :=
  partsOfBits x.toBits.toNat

/-- The bits of positive infinity, above those of every finite number. -/
def infinityBits : Nat := 2047 * mantissaRange

/-- The quotient rounded to the nearest natural, a half to the even one. -/
def roundQuotient (num den : Nat) : Nat :=
  let quotient := num / den
  let twice := 2 * (num % den)
  if twice > den || (twice == den && quotient % 2 == 1) then quotient + 1 else quotient

/-- The exponent with which the quotient has a mantissa of fifty-three bits, and no less than the
least exponent of all. -/
def exponentFor (num den : Nat) : Int :=
  let guess : Int := (num.log2 : Int) - den.log2 - 52
  let scaled (e : Int) : Nat × Nat :=
    if e ≥ 0 then (num, den * twoTo e.toNat) else (num * twoTo (-e).toNat, den)
  let exact := if (scaled guess).1 / (scaled guess).2 < mantissaRange then guess - 1 else guess
  max exact (-1074)

/-- The bits of the float nearest to `num / den`, infinity where that is too large. A mantissa that
rounds up to the next power of two carries into the exponent by itself. -/
def nearestBits (num den : Nat) : Nat :=
  if num == 0 then 0 else
    let e := exponentFor num den
    let mantissa :=
      if e ≥ 0 then roundQuotient num (den * twoTo e.toNat)
      else roundQuotient (num * twoTo (-e).toNat) den
    min ((e + 1074).toNat * mantissaRange + mantissa) infinityBits

/-- The float of the given sign whose magnitude has these bits. -/
def ofMagnitudeBits (negative : Bool) (bits : Nat) : Float :=
  Float.ofBits (UInt64.ofNat (if negative then twoTo 63 + bits else bits))

/-- The float nearest to `± num / den`. -/
def nearest (negative : Bool) (num den : Nat) : Float :=
  ofMagnitudeBits negative (nearestBits num den)

/-- The bits of a float as 16 hexadecimal digits. -/
def bitsText (x : Float) : String :=
  let digits := Nat.toDigits 16 x.toBits.toNat
  String.ofList (List.replicate (16 - digits.length) '0' ++ digits)

/-- The float nearest to an integer. -/
def ofInt (i : Int) : Float :=
  nearest (i < 0) i.natAbs 1

end CellRules.Number
