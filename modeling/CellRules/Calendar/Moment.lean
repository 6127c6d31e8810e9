/-
CellRules.Calendar.Moment — a day and a time of it, to the nanosecond.

Second sixty is a leap second: it comes after the whole of second fifty-nine and before the next
minute. `rank` numbers the moments in the order of time.
-/
import CellRules.Calendar.Date

namespace CellRules.Calendar

/-- The parts of a second. -/
abbrev nanosPerSecond : Nat := 1000000000

/-- The numbers name a time of day. -/
abbrev IsTime (hour minute second nano : Nat) : Prop :=
  hour < 24 ∧ minute < 60 ∧ second ≤ 60 ∧ nano < nanosPerSecond

/-- A day and a time of it. -/
structure Moment where
  date : Date
  hour : Nat
  minute : Nat
  second : Nat
  nano : Nat
  isTime : IsTime hour minute second nano
  deriving DecidableEq, Repr

/-- The moment that a day and the numbers name, if they name one. -/
def Moment.ofParts? (date : Date) (hour minute second nano : Nat) : Option Moment :=
  if h : IsTime hour minute second nano then some ⟨date, hour, minute, second, nano, h⟩ else none

@[simp] theorem Moment.ofParts?_self (m : Moment) :
    Moment.ofParts? m.date m.hour m.minute m.second m.nano = some m :=
  dif_pos m.isTime

/-- The first moment of a day. -/
def Date.midnight (d : Date) : Moment := ⟨d, 0, 0, 0, 0, by decide⟩

/-- The moment without its fraction of a second. -/
def Moment.wholeSecond (m : Moment) : Moment :=
  { m with nano := 0, isTime := ⟨m.isTime.1, m.isTime.2.1, m.isTime.2.2.1, by decide⟩ }

/-- A number that orders moments as time does. -/
def Moment.rank (m : Moment) : Int :=
  let day : Int := (m.date.year * 13 + m.date.month) * 32 + m.date.day
  let second : Int := ((day * 24 + m.hour) * 60 + m.minute) * 61 + m.second
  second * nanosPerSecond + m.nano

/-- The first moment is the second one or comes before it. -/
def Moment.notAfter (a b : Moment) : Bool := a.rank ≤ b.rank

/-- The moment a number of minutes later, up to a day either way; `none` past the ends of the
calendar. -/
def Moment.addMinutes? (m : Moment) (minutes : Int) : Option Moment :=
  let total : Int := m.hour * 60 + m.minute + minutes
  let date? :=
    if total < 0 then m.date.previous?
    else if 1440 ≤ total then m.date.next?
    else some m.date
  let ofDay := (total % 1440).toNat
  date?.bind fun date => Moment.ofParts? date (ofDay / 60) (ofDay % 60) m.second m.nano

end CellRules.Calendar
