/-
CellRules.Json.Decode — taking data out of JSON values.

A decoder answers `none` for a value of another shape. A record is an object whose members are
known by name, unknown ones passed over and repeated ones refused, or an array of the values in
order. A numeral without point and power is a whole number if it fits into sixty-four bits, with the
exception of minus zero; any other numeral is a float.
-/
import CellRules.Json.Basic
import CellRules.Number.Numeral

namespace CellRules.Json

/-! ## Numbers -/

/-- The digits of a numeral gathered into sixty-four bits: a significand and a power of ten. -/
structure Gathered where
  significand : Nat := 0
  power : Int := 0

/-- The bound of the significand. -/
def significandBound : Nat := Number.twoTo 64

/-- Gathers the digits before the point. The first digit that does not fit and all after it only
raise the power. -/
def Gathered.addWhole (g : Gathered) : List Char → Gathered
  | [] => g
  | c :: cs =>
    let next := 10 * g.significand + (c.toNat - '0'.toNat)
    if next < significandBound then addWhole { g with significand := next } cs
    else { g with power := g.power + (cs.length + 1 : Nat) }

/-- Gathers the digits behind the point. The first digit that does not fit and all after it are
dropped. -/
def Gathered.addFraction (g : Gathered) : List Char → Gathered
  | [] => g
  | c :: cs =>
    let next := 10 * g.significand + (c.toNat - '0'.toNat)
    if next < significandBound then
      addFraction { significand := next, power := g.power - 1 } cs
    else g

/-- The float of a power of ten. -/
def powerOfTen (n : Nat) : Float := Number.nearest false (Number.tenTo n) 1

/-- Divides by powers of ten, at most `10 ^ 308` at a time. -/
def divideDown (x : Float) (power : Nat) : Nat → Float
  | 0 => x
  | steps + 1 =>
    if power ≤ 308 then x / powerOfTen power
    else if x == 0 then x
    else divideDown (x / powerOfTen 308) (power - 308) steps

/-- The float of gathered digits: the significand, rounded, times or over the power of ten, each
step rounded. `none` if it is too large. -/
def Gathered.float? (g : Gathered) : Option Float :=
  let x := Number.nearest false g.significand 1
  if g.power < 0 then some (divideDown x (-g.power).toNat 4)
  else if g.power ≤ 308 then
    let y := x * powerOfTen g.power.toNat
    if y.isInf then none else some y
  else if g.significand == 0 then some x
  else none

/-- The number a numeral writes. -/
inductive Quantity where
  | whole (i : Int)
  | real (x : Float)

/-- Parts of a numeral: the digits before the point, those behind it, and the power of ten; whether
the numeral has a point or a power at all. -/
def splitNumeral (cs : List Char) : List Char × List Char × Int × Bool :=
  let (whole, rest) := Number.spanDigits cs
  let (fraction, rest) := match rest with
    | '.' :: rest => Number.spanDigits rest
    | rest => ([], rest)
  (whole, fraction, (Number.exponent? rest).getD 0, whole.length == cs.length)

/-- The largest power of ten that a numeral may state. -/
def powerBound : Int := 2147483647

/-- The magnitude of a numeral as a float. A power beyond all bounds leaves zero as it is, makes
anything else zero or too large. -/
def magnitude? (whole fraction : List Char) (power : Int) : Option Float :=
  let g := ((Gathered.mk 0 0).addWhole whole).addFraction fraction
  if powerBound < power && g.significand != 0 then none
  else if powerBound < power || power < -powerBound then some (Number.ofMagnitudeBits false 0)
  else { g with power := g.power + power : Gathered }.float?

/-- The number that a numeral writes; `none` if it is too large for a float. -/
def quantity? (numeral : String) : Option Quantity :=
  let (negative, cs) := Number.spanSign numeral.toList
  let (whole, fraction, power, plain) := splitNumeral cs
  let n : Int := Number.natOfDigits whole
  if plain && !negative && n < Number.twoTo 64 then some (.whole n)
  else if plain && negative && 0 < n && n ≤ Number.twoTo 63 then some (.whole (-n))
  else (magnitude? whole fraction power).map fun x => .real (if negative then -x else x)

/-- A float; a whole number counts as one. -/
def float? : Json → Option Float
  | .number numeral => (quantity? numeral).map fun
    | .whole i => Number.ofInt i
    | .real x => x
  | _ => none

/-- A whole number between two bounds. -/
def intWithin? (low high : Int) : Json → Option Int
  | .number numeral => match quantity? numeral with
    | some (.whole i) => if low ≤ i && i ≤ high then some i else none
    | _ => none
  | _ => none

/-- A signed number of sixty-four bits. -/
def int64? (j : Json) : Option Int := j.intWithin? (-Number.twoTo 63) (Number.twoTo 63 - 1)

/-- An unsigned number of sixty-four bits. -/
def nat64? (j : Json) : Option Nat := (j.intWithin? 0 (Number.twoTo 64 - 1)).map Int.toNat

/-! ## Other values -/

def bool? : Json → Option Bool
  | .bool b => some b
  | _ => none

def string? : Json → Option String
  | .string s => some s
  | _ => none

/-- The name of a choice without data: a string, or an object with that name and null. -/
def variant? : Json → Option String
  | .string s => some s
  | .object [(name, .null)] => some name
  | _ => none

/-- The items of an array, each decoded. -/
def list? (f : Json → Option α) : Json → Option (List α)
  | .array items => items.mapM f
  | _ => none

/-- Null, or a value decoded. -/
def optional? (f : Json → Option α) : Json → Option (Option α)
  | .null => some none
  | j => (f j).map some

/-! ## Records -/

/-- The value of a member: nothing if it is absent, refused if it is there twice. -/
def member? (name : String) (members : List (String × Json)) : Option (Option Json) :=
  match members.filter (·.1 == name) with
  | [] => some none
  | [(_, v)] => some (some v)
  | _ => none

/-- The values of the named members in order. An array gives them by position; it holds all of
them, or with `short` some of the first. -/
def record? (short : Bool) (names : List String) : Json → Option (List (Option Json))
  | .object members => names.mapM fun name => member? name members
  | .array items =>
    if items.length == names.length || (short && items.length < names.length) then
      some (items.map some ++ List.replicate (names.length - items.length) none)
    else none
  | _ => none

/-- A member that may be absent; then it has a default. -/
def withDefault? (default : α) (f : Json → Option α) : Option Json → Option α
  | some v => f v
  | none => some default

end CellRules.Json
