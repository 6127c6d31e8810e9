/-
CellRules.Proofs.Grid.Growing — what a grid keeps while rows are added and cells are set.

Whatever is pushed and set, the columns of a grid stay, its rows stay or get more, and a row goes on
having a cell for each column (`Grid.Grows`). That needs no column names that differ: a name may be
repeated. A row of such a grid can be focused on each of its columns (`Full.focus_contextAt`), so a
column that was found in the grid once is found in every row ever after.
-/
import CellRules.Proofs.Grid.Reading

namespace CellRules

/-- A row that was given values has those columns and the ones it had. -/
theorem RowContext.isSome_get?_foldl_set {column : String} (values : List (String × Cell))
    (ctx : RowContext) :
    ((values.foldl (fun ctx (column, cell) => ctx.set column cell) ctx).get? column).isSome = true ↔
      column ∈ values.map (·.1) ∨ (ctx.get? column).isSome = true := by
  induction values generalizing ctx with
  | nil => simp
  | cons value values ih =>
    rw [List.foldl_cons, ih, get?_set, List.map_cons, List.mem_cons]
    by_cases h : column = value.1 <;> simp [h]

namespace Grid

variable {g g' g'' : Grid} {row : Nat} {column : String} {cell : Cell}

/-- Every row has a cell for each column. -/
def Full (g : Grid) : Prop := ∀ cells ∈ g.rows, cells.length = g.columns.length

theorem full_empty (columns : List String) : (empty columns).Full := nofun

theorem hasColumn_iff : g.hasColumn column = true ↔ column ∈ g.columns := by
  simp [hasColumn, position?, List.findIdx?_isSome]

/-- A row of a full grid is read, and can be focused on each column. -/
theorem Full.focus_contextAt (hg : g.Full) (hrow : row < g.rows.length)
    (hcolumn : column ∈ g.columns) :
    (g.contextAt row).focus column = .ok (g.focused row column) := by
  have hlength : g.columns.length ≤ (g.rows[row]?.getD []).length := by
    rw [List.getElem?_eq_getElem hrow, Option.getD_some]
    exact Nat.le_of_eq (hg _ (List.getElem_mem hrow)).symm
  have hthere : ((g.contextAt row).get? column).isSome = true := by
    rw [contextAt, contextOf, RowContext.ofValues, RowContext.isSome_get?_foldl_set,
      List.map_fst_zip hlength]
    exact .inl hcolumn
  rw [RowContext.focus, if_pos hthere]
  rfl

/-! ## Changes -/

/-- A change of a grid: a new row, or a new value of a cell. -/
inductive Edit where
  | push (values : List (String × Cell))
  | set (row : Nat) (column : String) (cell : Cell)

/-- Takes one change. One that is refused leaves the grid as it is. -/
def take (g : Grid) : Edit → Grid
  | .push values => g.push values
  | .set row column cell => (g.set row column cell).toOption.getD g

/-- Takes changes in order. -/
def takeAll (g : Grid) (edits : List Edit) : Grid := edits.foldl take g

/-- The columns are the same, no row has gone, and full rows have stayed full. -/
structure Grows (g g' : Grid) : Prop where
  columns : g'.columns = g.columns
  rows : g.rows.length ≤ g'.rows.length
  full : g.Full → g'.Full

theorem Grows.refl (g : Grid) : g.Grows g := ⟨rfl, Nat.le_refl _, id⟩

theorem Grows.trans (h : g.Grows g') (h' : g'.Grows g'') : g.Grows g'' :=
  ⟨h'.columns.trans h.columns, Nat.le_trans h.rows h'.rows, h'.full ∘ h.full⟩

theorem grows_push (g : Grid) (values : List (String × Cell)) : g.Grows (g.push values) where
  columns := rfl
  rows := by simp [push]
  full hg cells hcells := by
    rcases List.mem_append.mp hcells with hcells | hcells
    · exact hg cells hcells
    · rw [List.mem_singleton.mp hcells]
      exact length_rowOf values

theorem grows_set (h : g.set row column cell = .ok g') : g.Grows g' where
  columns := columns_set h
  rows := Nat.le_of_eq (length_set h).symm
  full hg cells hcells := by
    obtain ⟨position, before, -, hbefore, rfl⟩ := set_ok h
    rcases List.mem_or_eq_of_mem_set hcells with hmem | rfl
    · exact hg cells hmem
    · rw [List.length_set]
      exact hg before (List.mem_of_getElem? hbefore)

theorem grows_take (g : Grid) (edit : Edit) : g.Grows (g.take edit) := by
  cases edit with
  | push values => exact g.grows_push values
  | set row column cell =>
    rw [take]
    cases hset : g.set row column cell with
    | error problem => exact .refl g
    | ok grid => exact grows_set hset

theorem grows_takeAll (g : Grid) (edits : List Edit) : g.Grows (g.takeAll edits) := by
  induction edits generalizing g with
  | nil => exact .refl g
  | cons edit edits ih => exact (g.grows_take edit).trans (ih (g.take edit))

theorem takeAll_append (g : Grid) (edits edits' : List Edit) :
    g.takeAll (edits ++ edits') = (g.takeAll edits).takeAll edits' :=
  List.foldl_append

end Grid

end CellRules
