/-
CellRules.Calendar.Layout — texts of dates, written and read by one description.

A layout lists the pieces of a text. `Layout.write` writes a moment by it, `Layout.read?` reads the
numbers back. Reading is freer than writing: white space before a number is passed over, a month or
a smaller unit may have one digit, and a year one to four, or any number after a sign.
-/
import CellRules.Calendar.Moment
import CellRules.Number.Numeral
import CellRules.Text.Blank

namespace CellRules.Calendar

/-- One piece of a text of a date. -/
inductive Piece where
  | year
  | month
  | day
  | hour
  | minute
  | second
  /-- A point and the digits of a fraction, left out when it is zero. -/
  | fraction
  /-- Any white space, also none; written as nothing. -/
  | gap
  /-- The character itself. -/
  | mark (c : Char)
  deriving DecidableEq, Repr

abbrev Layout := List Piece

/-! ## Writing -/

/-- The digits of a number, filled up with zeros to a width. -/
def padded (width n : Nat) : List Char :=
  let digits := Nat.toDigits 10 n
  List.replicate (width - digits.length) '0' ++ digits

/-- A year: four digits up to 9999, else at least four after a sign. -/
def yearForm (year : Int) : List Char :=
  if 0 ≤ year && year ≤ 9999 then padded 4 year.toNat
  else (if year < 0 then '-' else '+') :: padded 4 year.natAbs

/-- A fraction of a second: nothing, or a point and three, six or nine digits. -/
def fractionForm (nano : Nat) : List Char :=
  if nano == 0 then []
  else if nano % 1000000 == 0 then '.' :: padded 3 (nano / 1000000)
  else if nano % 1000 == 0 then '.' :: padded 6 (nano / 1000)
  else '.' :: padded 9 nano

def Piece.write (m : Moment) : Piece → List Char
  | .year => yearForm m.date.year
  | .month => padded 2 m.date.month
  | .day => padded 2 m.date.day
  | .hour => padded 2 m.hour
  | .minute => padded 2 m.minute
  | .second => padded 2 m.second
  | .fraction => fractionForm m.nano
  | .gap => []
  | .mark c => [c]

/-- The text of a moment by a layout. -/
def Layout.write (layout : Layout) (m : Moment) : String :=
  String.ofList (layout.flatMap (Piece.write m))

/-! ## Reading -/

/-- The numbers read so far; a number that the layout does not mention is zero. -/
structure Fields where
  year : Int := 0
  month : Nat := 0
  day : Nat := 0
  hour : Nat := 0
  minute : Nat := 0
  second : Nat := 0
  nano : Nat := 0
  deriving DecidableEq, Repr

/-- The day that the numbers name, if any. -/
def Fields.date? (f : Fields) : Option Date := Date.ofParts? f.year f.month f.day

/-- The moment that the numbers name, if any. -/
def Fields.moment? (f : Fields) : Option Moment :=
  f.date?.bind fun date => Moment.ofParts? date f.hour f.minute f.second f.nano

/-- One to `width` digits at the start, and the rest. -/
def upTo (width : Nat) (cs : List Char) : Option (Nat × List Char) :=
  let digits := (cs.take width).takeWhile Char.isDigit
  if digits.isEmpty then none else some (Number.natOfDigits digits, cs.drop digits.length)

/-- All the digits at the start, at least one, and the rest. -/
def allDigits (cs : List Char) : Option (Nat × List Char) := upTo cs.length cs

/-- A number of one or two digits behind white space. -/
def twoDigits (cs : List Char) : Option (Nat × List Char) := upTo 2 (cs.dropWhile Text.isSpace)

/-- A year behind white space: up to four digits, any number after a sign. -/
def readYear (cs : List Char) : Option (Int × List Char) :=
  match cs.dropWhile Text.isSpace with
  | '-' :: cs => (allDigits cs).map fun (n, rest) => (-(n : Int), rest)
  | '+' :: cs => (allDigits cs).map fun (n, rest) => ((n : Int), rest)
  | cs => (upTo 4 cs).map fun (n, rest) => ((n : Int), rest)

/-- The nanoseconds of the digits of a fraction; digits after the ninth do not count. -/
def nanoOfDigits (digits : List Char) : Nat :=
  Number.natOfDigits ((digits ++ List.replicate 9 '0').take 9)

/-- A fraction, if there is a point; digits follow it. -/
def readFraction : List Char → Option (Nat × List Char)
  | '.' :: cs =>
    let (digits, rest) := Number.spanDigits cs
    if digits.isEmpty then none else some (nanoOfDigits digits, rest)
  | cs => some (0, cs)

/-- Reads one piece. -/
def Piece.read? (f : Fields) (cs : List Char) : Piece → Option (Fields × List Char)
  | .year => (readYear cs).map fun (n, rest) => ({ f with year := n }, rest)
  | .month => (twoDigits cs).map fun (n, rest) => ({ f with month := n }, rest)
  | .day => (twoDigits cs).map fun (n, rest) => ({ f with day := n }, rest)
  | .hour => (twoDigits cs).map fun (n, rest) => ({ f with hour := n }, rest)
  | .minute => (twoDigits cs).map fun (n, rest) => ({ f with minute := n }, rest)
  | .second => (twoDigits cs).map fun (n, rest) => ({ f with second := n }, rest)
  | .fraction => (readFraction cs).map fun (n, rest) => ({ f with nano := n }, rest)
  | .gap => some (f, cs.dropWhile Text.isSpace)
  | .mark c => match cs with
    | d :: rest => if c = d then some (f, rest) else none
    | [] => none

/-- Reads the pieces in order; what is left belongs to no piece. -/
def Layout.readFrom? (f : Fields) (cs : List Char) : Layout → Option (Fields × List Char)
  | [] => some (f, cs)
  | piece :: layout =>
    (piece.read? f cs).bind fun (f, rest) => Layout.readFrom? f rest layout

/-- The numbers of a text that follows the layout to its end. -/
def Layout.read? (layout : Layout) (text : List Char) : Option Fields :=
  match layout.readFrom? {} text with
  | some (f, []) => some f
  | _ => none

end CellRules.Calendar
