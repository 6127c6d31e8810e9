/-
CellRules.Proofs.Row.Indexed — rows found by their texts.

An index is built in one pass over the rows: each row whose cell is not blank joins the group of its
text. What is then found under a text is what a scan of all rows finds, in the order of the rows
(`Dataset.rowsWith_index`), whatever order the texts come in and however often they come.
-/
import CellRules.Row.Dataset
import Mathlib.Data.List.Induction

namespace CellRules

namespace ColumnIndex

variable {column text : String}

/-- Entering a row changes the group of its text only, at the end. -/
theorem find?_enterIn (text key : String) (row : Nat) (groups : List (String × List Nat)) :
    ((enterIn text row groups).find? (·.1 == key)).map (·.2)
      = if text = key then some (((groups.find? (·.1 == key)).map (·.2)).getD [] ++ [row])
        else (groups.find? (·.1 == key)).map (·.2) := by
  induction groups with
  | nil =>
    by_cases h : text = key
    · simp [enterIn, h]
    · simp [enterIn, h]
  | cons group groups ih =>
    obtain ⟨name, rows⟩ := group
    rw [enterIn]
    by_cases hname : name = text
    · subst hname
      by_cases h : name = key
      · simp [h]
      · simp [h]
    · rw [if_neg hname]
      by_cases h : name = key
      · subst h
        simp [Ne.symm hname]
      · simp [h, ih]

/-- A row is found under the text of its cell, behind those that were entered before. -/
theorem rowsWith_enter (column text : String) (index : ColumnIndex) (ctx : RowContext) :
    (enter column index ctx).rowsWith text
      = index.rowsWith text ++
        if ctx.key? column = some (Text.trim text) then [ctx.row] else [] := by
  unfold enter
  cases hkey : ctx.key? column with
  | none => simp
  | some key =>
    simp only [rowsWith, find?_enterIn, Option.some.injEq]
    by_cases h : key = Text.trim text
    · simp [h]
    · simp [h]

/-- Looking up a text in the index of some rows finds what a scan of the rows finds. -/
theorem rowsWith_build (d : Dataset) (column text : String) :
    (build d column).rowsWith text
      = (d.rows.filter fun ctx => ctx.key? column == some (Text.trim text)).map (·.row) := by
  obtain ⟨rows⟩ := d
  induction rows using List.reverseRec with
  | nil => rfl
  | append_singleton rows ctx ih =>
    have hbuild : build ⟨rows ++ [ctx]⟩ column = enter column (build ⟨rows⟩ column) ctx := by
      simp [build]
    rw [hbuild, rowsWith_enter, ih, List.filter_append, List.map_append]
    by_cases h : ctx.key? column = some (Text.trim text)
    · simp [h]
    · simp [h]

end ColumnIndex

namespace Dataset

variable {rows : Dataset} {column text : String} {row : Nat}

/-- The rows of a text are those that a scan finds, in their order. -/
theorem rowsWith_index (rows : Dataset) (column text : String) :
    (rows.index column).rowsWith text
      = (rows.rows.filter fun ctx => ctx.key? column == some (Text.trim text)).map (·.row) := by
  rw [index, IndexedRows.index_fst, ColumnIndex.rowsWith_build, rows_unasked]

/-- The rows of a text are those whose cell has it. -/
theorem mem_rowsWith :
    row ∈ (rows.index column).rowsWith text ↔
      ∃ x ∈ rows.rows, x.row = row ∧ x.key? column = some (Text.trim text) := by
  rw [rowsWith_index]
  simp only [List.mem_map, List.mem_filter, beq_iff_eq]
  constructor
  · rintro ⟨x, ⟨hx, hkey⟩, hrow⟩
    exact ⟨x, hx, hrow, hkey⟩
  · rintro ⟨x, hx, hrow, hkey⟩
    exact ⟨x, ⟨hx, hkey⟩, hrow⟩

end Dataset

end CellRules
