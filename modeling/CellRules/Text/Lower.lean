/-
CellRules.Text.Lower — lower case, by the full mapping of Unicode.

Each character maps by itself, with two exceptions: the capital I with a dot becomes two
characters, and a capital sigma has its final form at the end of a word. A sigma ends a word when
a cased letter comes before it and none after it, case-ignorable characters not counted.
-/
import CellRules.Text.CaseTable

namespace CellRules.Text

/-- The lower-case letter of a character that maps to one character whatever stands around it. -/
def lowerChar (c : Char) : Char :=
  if c.toNat < 0x80 then c.toLower else
    match lowerRuns.find? fun r =>
        r.first ≤ c.toNat && c.toNat ≤ r.last && (c.toNat - r.first) % r.stride == 0 with
    | some r => Char.ofNat (Int.toNat (c.toNat + r.shift))
    | none => c

/-- The first character that is not case-ignorable is a cased letter. -/
def nextIsCased (cs : List Char) : Bool :=
  match cs.dropWhile (inSpans caseIgnorableSpans) with
  | [] => false
  | c :: _ => inSpans casedSpans c

/-- Lower case of the characters `cs`; `before` holds those already passed, nearest first. -/
def lowerFrom (before : List Char) : List Char → List Char
  | [] => []
  | c :: cs =>
    let here :=
      if c == '\u03A3' then
        if nextIsCased before && !nextIsCased cs then ['\u03C2'] else ['\u03C3']
      else if c == '\u0130' then ['i', '\u0307']
      else [lowerChar c]
    here ++ lowerFrom (c :: before) cs

/-- The text in lower case. -/
def lower (s : String) : String :=
  String.ofList (lowerFrom [] s.toList)

end CellRules.Text
