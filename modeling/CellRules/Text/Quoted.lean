/-
CellRules.Text.Quoted — a text between double quotes, as it is shown in messages for programmers.

A double quote and a backslash are preceded by a backslash; tab, line feed, carriage return and
NUL have short forms; any other character that is not visible is written by its code point in
braces.
-/
import CellRules.Text.Visible

namespace CellRules.Text

/-- The code point in hexadecimal, between braces. -/
def codePointForm (c : Char) : List Char :=
  ['\\', 'u', '{'] ++ Nat.toDigits 16 c.toNat ++ ['}']

/-- How one character is written between quotes. -/
def quotedChar (c : Char) : List Char :=
  if c == '"' then ['\\', '"']
  else if c == '\\' then ['\\', '\\']
  else if c == '\t' then ['\\', 't']
  else if c == '\n' then ['\\', 'n']
  else if c == '\r' then ['\\', 'r']
  else if c.toNat == 0 then ['\\', '0']
  else if isVisible c then [c]
  else codePointForm c

/-- The text between double quotes. -/
def quote (s : String) : String :=
  String.ofList ('"' :: s.toList.flatMap quotedChar ++ ['"'])

end CellRules.Text
