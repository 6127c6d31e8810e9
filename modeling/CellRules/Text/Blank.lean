/-
CellRules.Text.Blank — white space around a text.

White space is the Unicode property White_Space. `trim` takes it off both ends, and a text is
blank when nothing else is in it. Main statement: `trim s` is empty exactly when `s` is blank
(`trim_eq_empty_iff`).
-/

namespace CellRules.Text

/-- A character with the property White_Space. -/
def isSpace (c : Char) : Bool :=
  let n := c.toNat
  (0x09 ≤ n && n ≤ 0x0D) || n == 0x20 || n == 0x85 || n == 0xA0 || n == 0x1680 ||
    (0x2000 ≤ n && n ≤ 0x200A) || n == 0x2028 || n == 0x2029 || n == 0x202F || n == 0x205F ||
    n == 0x3000

/-- Characters without the white space at either end. -/
def trimmed (cs : List Char) : List Char :=
  ((cs.dropWhile isSpace).reverse.dropWhile isSpace).reverse

/-- The text without the white space at either end. -/
def trim (s : String) : String :=
  String.ofList (trimmed s.toList)

/-- Nothing but white space. -/
def isBlank (s : String) : Bool :=
  s.toList.all isSpace

theorem dropWhile_isSpace_eq_nil_iff (cs : List Char) :
    cs.dropWhile isSpace = [] ↔ ∀ c ∈ cs, isSpace c = true := by
  induction cs with
  | nil => simp
  | cons c cs ih =>
    by_cases h : isSpace c = true
    · simp [h, ih]
    · simp [h]

theorem trimmed_eq_nil_iff (cs : List Char) : trimmed cs = [] ↔ cs.all isSpace = true := by
  rw [trimmed, List.reverse_eq_nil_iff, dropWhile_isSpace_eq_nil_iff, List.all_eq_true]
  simp only [List.mem_reverse]
  constructor
  · intro h
    apply (dropWhile_isSpace_eq_nil_iff cs).1
    match hd : cs.dropWhile isSpace with
    | [] => rfl
    | c :: rest =>
      have hspace : isSpace c = true := h c (by simp [hd])
      have hstop := List.head_dropWhile_not isSpace (l := cs) (by simp [hd])
      simp [hd, hspace] at hstop
  · intro h c hc
    exact h c ((List.dropWhile_sublist isSpace).mem hc)

/-- A text trims to nothing exactly when it is blank. -/
theorem trim_eq_empty_iff (s : String) : trim s = "" ↔ isBlank s = true := by
  unfold trim isBlank
  rw [← trimmed_eq_nil_iff, ← String.toList_inj]
  simp

end CellRules.Text
