/-
CellRules.Calendar.Date — days of the proleptic Gregorian calendar.

A `Date` carries the proof that it names a day of the calendar. Years run from -262143 to 262142,
year 0 included.
-/

namespace CellRules.Calendar

/-- A year with a twenty-ninth of February. -/
def isLeapYear (year : Int) : Bool :=
  year % 4 == 0 && (year % 100 != 0 || year % 400 == 0)

/-- The number of days of a month; none for a month that does not exist. -/
def daysInMonth (year : Int) : Nat → Nat
  | 2 => if isLeapYear year then 29 else 28
  | 4 | 6 | 9 | 11 => 30
  | 1 | 3 | 5 | 7 | 8 | 10 | 12 => 31
  | _ => 0

def firstYear : Int := -262143
def lastYear : Int := 262142

/-- The numbers name a day of the calendar. -/
abbrev IsDay (year : Int) (month day : Nat) : Prop :=
  firstYear ≤ year ∧ year ≤ lastYear ∧ 1 ≤ day ∧ day ≤ daysInMonth year month

/-- A day of the calendar. -/
structure Date where
  year : Int
  month : Nat
  day : Nat
  isDay : IsDay year month day
  deriving DecidableEq, Repr

/-- The day that the numbers name, if they name one. -/
def Date.ofParts? (year : Int) (month day : Nat) : Option Date :=
  if h : IsDay year month day then some ⟨year, month, day, h⟩ else none

@[simp] theorem Date.ofParts?_self (d : Date) : Date.ofParts? d.year d.month d.day = some d :=
  dif_pos d.isDay

/-- The day after, if the calendar reaches it. -/
def Date.next? (d : Date) : Option Date :=
  (Date.ofParts? d.year d.month (d.day + 1)).or <|
    (Date.ofParts? d.year (d.month + 1) 1).or (Date.ofParts? (d.year + 1) 1 1)

/-- The day before, if the calendar reaches it. -/
def Date.previous? (d : Date) : Option Date :=
  (Date.ofParts? d.year d.month (d.day - 1)).or <|
    (Date.ofParts? d.year (d.month - 1) (daysInMonth d.year (d.month - 1))).or
      (Date.ofParts? (d.year - 1) 12 31)

end CellRules.Calendar
