/-
CellRules.Ascending — finite sets as ascending lists.

Columns and row indices are gathered into sets that are listed in ascending order. Main statements:
`mem_insert` and `mem_ofList` say what is in a set.
-/

namespace CellRules.Ascending

variable {α : Type} [LT α] [DecidableEq α] [DecidableLT α]

/-- Adds a member at its place unless it is there. -/
def insert (a : α) : List α → List α
  | [] => [a]
  | b :: bs => if a = b then b :: bs else if a < b then a :: b :: bs else b :: insert a bs

/-- Adds some members. -/
def addAll (set : List α) (items : List α) : List α := items.foldl (fun set a => insert a set) set

/-- The set of some items. -/
def ofList (items : List α) : List α := addAll [] items

theorem mem_insert {a b : α} {set : List α} : b ∈ insert a set ↔ b = a ∨ b ∈ set := by
  induction set with
  | nil => simp [insert]
  | cons c cs ih =>
    rw [insert]
    split
    · rename_i h; subst h; simp
    · split
      · simp
      · simp only [List.mem_cons, ih]
        constructor
        · rintro (h | h | h) <;> simp [h]
        · rintro (h | h | h) <;> simp [h]

theorem mem_addAll {b : α} {set items : List α} : b ∈ addAll set items ↔ b ∈ set ∨ b ∈ items := by
  induction items generalizing set with
  | nil => simp [addAll]
  | cons a items ih =>
    rw [addAll, List.foldl_cons, ← addAll, ih, mem_insert, List.mem_cons]
    constructor
    · rintro ((h | h) | h) <;> simp [h]
    · rintro (h | h | h) <;> simp [h]

theorem mem_ofList {b : α} {items : List α} : b ∈ ofList items ↔ b ∈ items := by
  simp [ofList, mem_addAll]

end CellRules.Ascending
