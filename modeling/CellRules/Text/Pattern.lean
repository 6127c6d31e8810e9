/-
CellRules.Text.Pattern — forms of texts.

A pattern describes the texts of a form: a character of a kind, a text after another, one of two
texts, texts of one form in a row. To find out whether a text has the form, the characters are taken
one by one; after each of them a pattern is left that describes what may still come
(`Pattern.after`), and the text has the form if at its end nothing needs to come any more.
-/

namespace CellRules.Text

/-- A form of texts. -/
inductive Pattern where
  /-- No text at all. -/
  | never
  /-- The empty text. -/
  | empty
  /-- A character of a kind. -/
  | one (kind : Char → Bool)
  /-- A text of one form and then one of another. -/
  | next (first second : Pattern)
  /-- A text of one of two forms. -/
  | either (first second : Pattern)
  /-- Any number of texts of a form in a row, also none. -/
  | many (p : Pattern)

namespace Pattern

/-! ## Forms -/

/-- A certain character. -/
def char (c : Char) : Pattern := one (· == c)

/-- Texts of some forms in order. -/
def row : List Pattern → Pattern
  | [] => empty
  | p :: ps => next p (row ps)

/-- A text of a form, or nothing. -/
def maybe (p : Pattern) : Pattern := either empty p

/-- A number of texts of a form, at least one. -/
def oneOrMore (p : Pattern) : Pattern := next p (many p)

/-- So many texts of a form. -/
def times : Nat → Pattern → Pattern
  | 0, _ => empty
  | n + 1, p => next p (times n p)

/-- At most so many texts of a form. -/
def upTo : Nat → Pattern → Pattern
  | 0, _ => empty
  | n + 1, p => maybe (next p (upTo n p))

/-- A number of texts of a form between two bounds. -/
def between (least most : Nat) (p : Pattern) : Pattern :=
  next (times least p) (upTo (most - least) p)

/-! ## Taking characters -/

/-- Nothing needs to come. -/
def mayEnd : Pattern → Bool
  | never | one _ => false
  | empty | many _ => true
  | next first second => first.mayEnd && second.mayEnd
  | either first second => first.mayEnd || second.mayEnd

/-- One form and then another, nothing kept of a form that is done or cannot be met. -/
def followedBy : Pattern → Pattern → Pattern
  | never, _ => never
  | empty, second => second
  | first, second => next first second

/-- One of two forms, nothing kept of one that cannot be met. -/
def orElse : Pattern → Pattern → Pattern
  | never, second => second
  | first, never => first
  | first, second => either first second

/-- What may come after a character. -/
def after (c : Char) : Pattern → Pattern
  | never | empty => never
  | one kind => if kind c then empty else never
  | next first second =>
    if first.mayEnd then ((first.after c).followedBy second).orElse (second.after c)
    else (first.after c).followedBy second
  | either first second => (first.after c).orElse (second.after c)
  | many p => (p.after c).followedBy (many p)

/-- The text has the form. -/
def fits (p : Pattern) (cs : List Char) : Bool := (cs.foldl (fun p c => p.after c) p).mayEnd

end Pattern

end CellRules.Text
