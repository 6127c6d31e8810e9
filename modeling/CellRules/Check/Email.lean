/-
CellRules.Check.Email — email addresses.

An address is a mailbox and a domain with an at-sign between. A mailbox has letters, digits and some
marks; a domain is a row of labels with dots between, each of at most sixty-three letters, digits
and inner hyphens. All characters are ASCII.
-/
import CellRules.Row.Context
import CellRules.Text.Pattern
import CellRules.Verdict

namespace CellRules.Check

/-- An ASCII letter or digit. -/
def isAlnum (c : Char) : Bool := c.isAlphanum

/-- A character that a mailbox may have. -/
def isMailboxChar (c : Char) : Bool :=
  isAlnum c || ".!#$%&'*+/=?^_`\x7b|\x7d~-".toList.contains c

/-- A label of a domain: the hyphens stand between letters and digits. -/
def label : Text.Pattern :=
  .row
    [.one isAlnum,
     .maybe (.row [.upTo 61 (.one fun c => isAlnum c || c == '-'), .one isAlnum])]

/-- A mailbox, an at-sign and a domain. -/
def address : Text.Pattern :=
  .row [.oneOrMore (.one isMailboxChar), .char '@', label, .many (.row [.char '.', label])]

/-- The text is an address, white space around it not counted. -/
def isEmail (text : String) : Bool := address.fits (Text.trimmed text.toList)

/-- A cell, unless blank, has a text of a certain form. -/
def textForm (form : String → Bool) (expected column : String) (ctx : RowContext) : Verdict :=
  match ctx.filled? column with
  | some cell =>
    if form cell.toText then .success else .error (column ++ " must be " ++ expected)
  | none => .success

/-- The cell, unless blank, is an email address. -/
def email (column : String) (ctx : RowContext) : Verdict :=
  textForm isEmail "a valid email address" column ctx

end CellRules.Check
