/-
CellRules.Json.Reader — reading the JSON notation.

`Json.ofText?` reads one value that fills the text, white space around its parts not counted. The
recursion is bounded by a count that the length of the text provides.
-/
import CellRules.Json.Basic

namespace CellRules.Json.Grammar

/-- White space between the parts of a value. -/
def isGap (c : Char) : Bool := c == ' ' || c == '\n' || c == '\t' || c == '\r'

/-- The characters from the next part on. -/
def skipGap (cs : List Char) : List Char := cs.dropWhile isGap

/-! ## Numbers -/

/-- Digits at the start, at least one. -/
def someDigits? (cs : List Char) : Option (List Char × List Char) :=
  match cs.takeWhile Char.isDigit with
  | [] => none
  | digits => some (digits, cs.dropWhile Char.isDigit)

/-- The whole part: a zero, or digits that do not start with one. -/
def wholePart? : List Char → Option (List Char × List Char)
  | '0' :: cs => match cs with
    | c :: _ => if c.isDigit then none else some (['0'], cs)
    | [] => some (['0'], [])
  | cs => someDigits? cs

/-- A point with digits, if there is a point. -/
def fractionPart? : List Char → Option (List Char × List Char)
  | '.' :: cs => (someDigits? cs).map fun (digits, rest) => ('.' :: digits, rest)
  | cs => some ([], cs)

/-- The mark of a power of ten with its sign and digits, if there is such a mark. -/
def powerPart? : List Char → Option (List Char × List Char)
  | c :: cs =>
    if c == 'e' || c == 'E' then
      match cs with
      | '+' :: cs => (someDigits? cs).map fun (digits, rest) => (c :: '+' :: digits, rest)
      | '-' :: cs => (someDigits? cs).map fun (digits, rest) => (c :: '-' :: digits, rest)
      | cs => (someDigits? cs).map fun (digits, rest) => (c :: digits, rest)
    else some ([], c :: cs)
  | [] => some ([], [])

/-- A numeral without a sign. -/
def unsigned? (cs : List Char) : Option (List Char × List Char) := do
  let (whole, cs) ← wholePart? cs
  let (fraction, cs) ← fractionPart? cs
  let (power, cs) ← powerPart? cs
  some (whole ++ fraction ++ power, cs)

/-- A numeral. -/
def numeral? : List Char → Option (List Char × List Char)
  | '-' :: cs => (unsigned? cs).map fun (numeral, rest) => ('-' :: numeral, rest)
  | cs => unsigned? cs

/-! ## Strings -/

/-- The value of a hexadecimal digit. -/
def hexValue? (c : Char) : Option Nat :=
  if c.isDigit then some (c.toNat - '0'.toNat)
  else if 'a' ≤ c && c ≤ 'f' then some (c.toNat - 'a'.toNat + 10)
  else if 'A' ≤ c && c ≤ 'F' then some (c.toNat - 'A'.toNat + 10)
  else none

/-- The number that four hexadecimal digits write. -/
def hexValues? (a b c d : Char) : Option Nat := do
  some (((← hexValue? a) * 16 + (← hexValue? b)) * 256 + ((← hexValue? c) * 16 + (← hexValue? d)))

/-- The code point of a short escape. -/
def shortEscape? (c : Char) : Option Nat :=
  if c == '"' || c == '\\' || c == '/' then some c.toNat
  else if c == 'b' then some 0x08
  else if c == 'f' then some 0x0C
  else if c == 'n' then some 0x0A
  else if c == 'r' then some 0x0D
  else if c == 't' then some 0x09
  else none

/-- The code points of a string up to its closing quote, halves of surrogate pairs by themselves. -/
def codePoints? : List Char → Option (List Nat × List Char)
  | [] => none
  | '"' :: rest => some ([], rest)
  | '\\' :: 'u' :: a :: b :: c :: d :: rest => do
    let n ← hexValues? a b c d
    let (ns, rest) ← codePoints? rest
    some (n :: ns, rest)
  | '\\' :: e :: rest => do
    let n ← shortEscape? e
    let (ns, rest) ← codePoints? rest
    some (n :: ns, rest)
  | c :: rest =>
    if c.toNat < 0x20 || c == '\\' then none
    else (codePoints? rest).map fun (ns, rest) => (c.toNat :: ns, rest)

/-- The characters of a string: two halves of a pair make one, half a pair alone makes none. -/
def joinPairs? : List Nat → Option (List Char)
  | [] => some []
  | high :: low :: ns =>
    if 0xD800 ≤ high && high < 0xDC00 then
      if 0xDC00 ≤ low && low < 0xE000 then
        (joinPairs? ns).map
          (Char.ofNat (0x10000 + (high - 0xD800) * 0x400 + (low - 0xDC00)) :: ·)
      else none
    else if 0xDC00 ≤ high && high < 0xE000 then none
    else (joinPairs? (low :: ns)).map (Char.ofNat high :: ·)
  | [n] => if 0xD800 ≤ n && n < 0xE000 then none else some [Char.ofNat n]

/-- The rest of a string after its opening quote: its text, if it has one, and what follows. -/
def string? (cs : List Char) : Option (Option String × List Char) :=
  (codePoints? cs).map fun (ns, rest) => ((joinPairs? ns).map String.ofList, rest)

/-! ## Values -/

/-- A string token as a value. -/
def ofString : Option String → Json
  | some s => .string s
  | none => .unreadable

/-- The members of an object as a value; every name must have a text. -/
def ofMembers (members : List (Option String × Json)) : Json :=
  match members.mapM fun (name, v) => name.map (·, v) with
  | some members => .object members
  | none => .unreadable

mutual

/-- One value at the start, and what follows it. -/
def value? : Nat → List Char → Option (Json × List Char)
  | 0, _ => none
  | fuel + 1, cs =>
    match skipGap cs with
    | 'n' :: 'u' :: 'l' :: 'l' :: rest => some (.null, rest)
    | 't' :: 'r' :: 'u' :: 'e' :: rest => some (.bool true, rest)
    | 'f' :: 'a' :: 'l' :: 's' :: 'e' :: rest => some (.bool false, rest)
    | '"' :: rest => (string? rest).map fun (s, rest) => (ofString s, rest)
    | '[' :: rest =>
      match skipGap rest with
      | ']' :: rest => some (.array [], rest)
      | rest => (items? fuel rest).map fun (items, rest) => (.array items, rest)
    | '{' :: rest =>
      match skipGap rest with
      | '}' :: rest => some (.object [], rest)
      | rest => (members? fuel rest).map fun (members, rest) => (ofMembers members, rest)
    | cs => (numeral? cs).map fun (numeral, rest) => (.number (String.ofList numeral), rest)

/-- The items of an array up to its closing bracket, at least one. -/
def items? : Nat → List Char → Option (List Json × List Char)
  | 0, _ => none
  | fuel + 1, cs =>
    match value? fuel cs with
    | none => none
    | some (v, rest) =>
      match skipGap rest with
      | ',' :: rest => (items? fuel rest).map fun (vs, rest) => (v :: vs, rest)
      | ']' :: rest => some ([v], rest)
      | _ => none

/-- The members of an object up to its closing brace, at least one. -/
def members? : Nat → List Char → Option (List (Option String × Json) × List Char)
  | 0, _ => none
  | fuel + 1, cs =>
    match skipGap cs with
    | '"' :: rest =>
      match string? rest with
      | none => none
      | some (name, rest) =>
        match skipGap rest with
        | ':' :: rest =>
          match value? fuel rest with
          | none => none
          | some (v, rest) =>
            match skipGap rest with
            | ',' :: rest => (members? fuel rest).map fun (ms, rest) => ((name, v) :: ms, rest)
            | '}' :: rest => some ([(name, v)], rest)
            | _ => none
        | _ => none
    | _ => none

end

end CellRules.Json.Grammar

namespace CellRules.Json

open Grammar in
/-- The value that a text writes; `none` if the text is not one value. -/
def ofText? (text : String) : Option Json :=
  let cs := text.toList
  match value? (2 * cs.length + 2) cs with
  | some (v, rest) => if (skipGap rest).isEmpty then some v else none
  | none => none

end CellRules.Json
