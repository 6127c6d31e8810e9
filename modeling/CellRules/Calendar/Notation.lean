/-
CellRules.Calendar.Notation — the written forms of dates and moments.

Each kind has one form for messages, one for data files, and several that are read from what people
type. `Moment.ofText?` reads the latter, a timestamp with a distance from universal time included.
-/
import CellRules.Calendar.Layout

namespace CellRules.Calendar

/-! ## Layouts -/

def dayPieces : Layout := [.year, .mark '-', .month, .mark '-', .day]

def timePieces : Layout := [.hour, .mark ':', .minute, .mark ':', .second]

/-- The form of a moment in messages, without its fraction. -/
def momentPieces : Layout := dayPieces ++ [.mark 'T'] ++ timePieces

/-- The form of a moment in data files. -/
def exactPieces : Layout := momentPieces ++ [.fraction]

/-- The day form as data files may hold it, with white space around the hyphens. -/
def looseDayPieces : Layout :=
  [.year, .gap, .mark '-', .month, .gap, .mark '-', .day, .gap]

/-- The moment form as data files may hold it. -/
def looseMomentPieces : Layout :=
  looseDayPieces ++
    [.mark 'T', .hour, .gap, .mark ':', .minute, .gap, .mark ':', .second, .fraction, .gap]

/-- The forms of a moment that are read from a cell, in the order they are tried. -/
def typedMomentLayouts : List Layout :=
  [dayPieces ++ [.gap] ++ timePieces, momentPieces]

/-- The forms of a day that are read from a cell, in the order they are tried. -/
def typedDayLayouts : List Layout :=
  [dayPieces,
   [.year, .mark '/', .month, .mark '/', .day],
   [.month, .mark '/', .day, .mark '/', .year],
   [.day, .mark '.', .month, .mark '.', .year]]

/-! ## Writing -/

/-- A day: year, month and day with hyphens. -/
def Date.text (d : Date) : String := dayPieces.write d.midnight

/-- A moment to the second. -/
def Moment.text (m : Moment) : String := momentPieces.write m

/-- A moment with its fraction. -/
def Moment.exactText (m : Moment) : String := exactPieces.write m

/-! ## Reading from data files -/

def Date.ofDataText? (text : String) : Option Date :=
  (looseDayPieces.read? text.toList).bind Fields.date?

def Moment.ofDataText? (text : String) : Option Moment :=
  (looseMomentPieces.read? text.toList).bind Fields.moment?

/-! ## Reading what people type -/

/-- Exactly `width` digits, and the rest. -/
def exactly (width : Nat) (cs : List Char) : Option (Nat × List Char) :=
  let digits := cs.take width
  if digits.length == width && digits.all Char.isDigit then
    some (Number.natOfDigits digits, cs.drop width)
  else none

/-- One of the characters, and the rest. -/
def oneOf (marks : List Char) : List Char → Option (Char × List Char)
  | c :: rest => if c ∈ marks then some (c, rest) else none
  | [] => none

/-- The distance from universal time at the end of a timestamp, in minutes. -/
def utcDistance? : List Char → Option Int
  | ['Z'] | ['z'] => some 0
  | cs => do
    let (sign, cs) ← oneOf ['+', '-', '\u2212'] cs
    let (hours, cs) ← exactly 2 cs
    let (_, cs) ← oneOf [':'] cs
    let (minutes, cs) ← exactly 2 cs
    if cs.isEmpty && hours < 24 && minutes < 60 then
      let distance : Int := hours * 60 + minutes
      some (if sign == '+' then distance else -distance)
    else none

/-- A timestamp with every number in its full width and a distance from universal time, as a moment
of universal time. -/
def ofTimestamp? (cs : List Char) : Option Moment := do
  let (year, cs) ← exactly 4 cs
  let (_, cs) ← oneOf ['-'] cs
  let (month, cs) ← exactly 2 cs
  let (_, cs) ← oneOf ['-'] cs
  let (day, cs) ← exactly 2 cs
  let (_, cs) ← oneOf ['T', 't', ' '] cs
  let (hour, cs) ← exactly 2 cs
  let (_, cs) ← oneOf [':'] cs
  let (minute, cs) ← exactly 2 cs
  let (_, cs) ← oneOf [':'] cs
  let (second, cs) ← exactly 2 cs
  let (nano, cs) ← readFraction cs
  let distance ← utcDistance? cs
  let date ← Date.ofParts? year month day
  let here ← Moment.ofParts? date hour minute second nano
  here.addMinutes? (-distance)

/-- The moment that a trimmed text stands for; a day alone stands for its first moment. -/
def ofTyped? (cs : List Char) : Option Moment :=
  (ofTimestamp? cs).or <|
    (typedMomentLayouts.findSome? fun layout => (layout.read? cs).bind Fields.moment?).or <|
      (typedDayLayouts.findSome? fun layout => (layout.read? cs).bind Fields.date?).map
        Date.midnight

/-- The moment that a text stands for, white space around it not counted. -/
def Moment.ofText? (text : String) : Option Moment :=
  ofTyped? (Text.trimmed text.toList)

end CellRules.Calendar
