/-
CellRules.Check.Phone — phone numbers.

Two forms are accepted: a North American number with separators at their places, and a number of
seven to fifteen digits that does not start with zero, once separators are taken out. Either may
have a plus in front. In the second form the digits after the first may be of any script.
-/
import CellRules.Check.Email
import CellRules.Text.DecimalDigit

namespace CellRules.Check

/-- A separator between groups of digits. -/
def isSeparator (c : Char) : Bool := c == '-' || c == '.' || Text.isSpace c

/-- A number of ASCII digits. -/
def digits (n : Nat) : Text.Pattern := .times n (.one Char.isDigit)

/-- A separator, or none. -/
def separator : Text.Pattern := .maybe (.one isSeparator)

/-- A North American number: three digits, which may be in parentheses, three digits and four
digits, with or without the country's code. -/
def northAmerican : Text.Pattern :=
  .row
    [.maybe (.row [.maybe (.char '+'), .char '1', separator]),
     .maybe (.char '('), digits 3, .maybe (.char ')'), separator, digits 3, separator, digits 4]

/-- A digit other than zero and six to fourteen digits. -/
def international : Text.Pattern :=
  .row
    [.maybe (.char '+'), .one fun c => c.isDigit && c != '0',
     .between 6 14 (.one Text.isDecimalDigit)]

/-- Characters that are taken out of an international number. -/
def isFiller (c : Char) : Bool := c == ' ' || c == '-' || c == '.' || c == '(' || c == ')'

/-- The text is a phone number, white space around it not counted. -/
def isPhoneNumber (text : String) : Bool :=
  let cs := Text.trimmed text.toList
  northAmerican.fits cs || international.fits (cs.filter fun c => !isFiller c)

/-- The cell, unless blank, is a phone number. -/
def phone (column : String) (ctx : RowContext) : Verdict :=
  textForm isPhoneNumber "a valid phone number" column ctx

end CellRules.Check
