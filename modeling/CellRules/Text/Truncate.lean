/-
CellRules.Text.Truncate — cutting a text to a number of bytes.

Length is counted in bytes of UTF-8. A text within the limit is left as it is; a longer one is cut
to the longest run of whole characters within the limit, and a mark says so.
-/

namespace CellRules.Text

/-- The longest prefix whose characters take at most `room` bytes. -/
def prefixWithin (room : Nat) : List Char → List Char
  | [] => []
  | c :: cs => if c.utf8Size ≤ room then c :: prefixWithin (room - c.utf8Size) cs else []

/-- What follows a text that was cut. -/
def truncationMark : String := "...(truncated)"

/-- At most `limit` bytes of the text, cut between characters, with a mark if anything is lost. -/
def truncate (limit : Nat) (text : String) : String :=
  if text.utf8ByteSize ≤ limit then text
  else String.ofList (prefixWithin limit text.toList) ++ truncationMark

end CellRules.Text
