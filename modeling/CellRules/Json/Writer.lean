/-
CellRules.Json.Writer — JSON values as text.

`compact` writes a value without any space, `pretty` over several lines with two spaces for each
level. In a string the quote, the backslash and the control characters below the space are escaped
and nothing else.
-/
import CellRules.Json.Basic

namespace CellRules.Json

/-- A hexadecimal digit. -/
def hexDigit (n : Nat) : Char := Nat.digitChar n

/-- How one character stands in a string. -/
def escaped (c : Char) : List Char :=
  if c == '"' then ['\\', '"']
  else if c == '\\' then ['\\', '\\']
  else if c == '\n' then ['\\', 'n']
  else if c == '\r' then ['\\', 'r']
  else if c == '\t' then ['\\', 't']
  else if c.toNat == 0x08 then ['\\', 'b']
  else if c.toNat == 0x0C then ['\\', 'f']
  else if c.toNat < 0x20 then
    ['\\', 'u', '0', '0', hexDigit (c.toNat / 16), hexDigit (c.toNat % 16)]
  else [c]

/-- A string between quotes. -/
def quoted (s : String) : List Char :=
  '"' :: s.toList.flatMap escaped ++ ['"']

/-- The start of a new line at a level; nothing in the compact form. -/
def lineBreak (pretty : Bool) (level : Nat) : List Char :=
  if pretty then '\n' :: List.replicate (2 * level) ' ' else []

/-- What stands between a member's name and its value. -/
def colon (pretty : Bool) : List Char :=
  if pretty then [':', ' '] else [':']

mutual

/-- The value at a level. -/
def write (pretty : Bool) (level : Nat) : Json → List Char
  | .null | .unreadable => ['n', 'u', 'l', 'l']
  | .bool true => ['t', 'r', 'u', 'e']
  | .bool false => ['f', 'a', 'l', 's', 'e']
  | .number numeral => numeral.toList
  | .string s => quoted s
  | .array [] => ['[', ']']
  | .array (v :: vs) =>
    '[' :: (lineBreak pretty (level + 1) ++ write pretty (level + 1) v ++
      writeItems pretty (level + 1) vs ++ lineBreak pretty level ++ [']'])
  | .object [] => ['{', '}']
  | .object ((name, v) :: members) =>
    '{' :: (lineBreak pretty (level + 1) ++ quoted name ++ colon pretty ++
      write pretty (level + 1) v ++ writeMembers pretty (level + 1) members ++
      lineBreak pretty level ++ ['}'])

/-- The items after the first one. -/
def writeItems (pretty : Bool) (level : Nat) : List Json → List Char
  | [] => []
  | v :: vs =>
    ',' :: (lineBreak pretty level ++ write pretty level v ++ writeItems pretty level vs)

/-- The members after the first one. -/
def writeMembers (pretty : Bool) (level : Nat) : List (String × Json) → List Char
  | [] => []
  | (name, v) :: members =>
    ',' :: (lineBreak pretty level ++ quoted name ++ colon pretty ++ write pretty level v ++
      writeMembers pretty level members)

end

/-- The value without any space. -/
def compact (j : Json) : String := String.ofList (write false 0 j)

/-- The value over several lines. -/
def pretty (j : Json) : String := String.ofList (write true 0 j)

end CellRules.Json
