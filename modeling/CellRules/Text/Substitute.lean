/-
CellRules.Text.Substitute — finding a fragment in a text, and replacing it.

Occurrences are taken from left to right and do not overlap. What has been put in is not searched
again.
-/

namespace CellRules.Text

/-- The fragment stands somewhere in the characters. -/
def occursIn (fragment : List Char) : List Char → Bool
  | [] => fragment.isEmpty
  | c :: cs => fragment.isPrefixOf (c :: cs) || occursIn fragment cs

/-- The text holds the fragment. -/
def contains (text fragment : String) : Bool :=
  occursIn fragment.toList text.toList

/-- Every occurrence of `mark` becomes `value`; the first `skip` characters belong to an occurrence
that has been replaced already. The mark is not empty. -/
def substituteFrom (mark value : List Char) (skip : Nat) : List Char → List Char
  | [] => []
  | c :: cs =>
    if skip > 0 then substituteFrom mark value (skip - 1) cs
    else if mark.isPrefixOf (c :: cs) then value ++ substituteFrom mark value (mark.length - 1) cs
    else c :: substituteFrom mark value 0 cs

/-- The text with every occurrence of `mark`, a non-empty text, replaced by `value`. -/
def substitute (mark value text : String) : String :=
  String.ofList (substituteFrom mark.toList value.toList 0 text.toList)

end CellRules.Text
