/-
CellRules.Proofs.Row.Values — the columns and the values of a row that was given values.

Setting a column that the row has replaces its value and keeps its place; any other column comes
last. So the columns of a row stand in the order in which they were first set, none of them twice
(`columns_ofValues`, `nodup_ofValues`), and each has the value that it was given last
(`get?_ofValues`). What a row holds is known by its columns and the value of each (`values_ext`).
-/
import CellRules.Proofs.Grid.Reading
import Mathlib.Data.List.Induction
import Mathlib.Data.List.Nodup

namespace CellRules.RowContext

variable {ctx ctx' : RowContext} {row : Nat} {column name : String} {cell : Cell}
  {values more : List (String × Cell)}

/-- A value is found for every name that is there, and for no other. -/
theorem isSome_find?_iff :
    (values.find? (·.1 == column)).isSome = true ↔ column ∈ values.map (·.1) := by
  rw [List.find?_isSome, List.mem_map]
  constructor
  · rintro ⟨value, hmem, hname⟩
    exact ⟨value, hmem, beq_iff_eq.mp hname⟩
  · rintro ⟨value, hmem, rfl⟩
    exact ⟨value, hmem, beq_self_eq_true _⟩

/-- The row has just the columns that it lists. -/
theorem isSome_get?_iff : (ctx.get? column).isSome = true ↔ column ∈ ctx.columns := by
  rw [get?, Option.isSome_map, isSome_find?_iff, columns]

/-! ## The value that was given last -/

/-- The value that a column was given last. -/
def lastGiven (values : List (String × Cell)) (column : String) : Option Cell :=
  (values.reverse.find? (·.1 == column)).map (·.2)

theorem lastGiven_append (values more : List (String × Cell)) (column : String) :
    lastGiven (values ++ more) column = (lastGiven more column).or (lastGiven values column) := by
  simp only [lastGiven, List.reverse_append, List.find?_append]
  cases more.reverse.find? (·.1 == column) <;> rfl

theorem lastGiven_one (value : String × Cell) (column : String) :
    lastGiven [value] column = if column = value.1 then some value.2 else none := by
  by_cases h : value.1 = column
  · simp [lastGiven, h]
  · simp [lastGiven, h, Ne.symm h]

/-- A column has a value exactly if it was given one. -/
theorem isSome_lastGiven : (lastGiven values column).isSome = true ↔ column ∈ values.map (·.1) := by
  rw [lastGiven, Option.isSome_map, isSome_find?_iff, List.map_reverse, List.mem_reverse]

/-! ## Setting one column -/

theorem names_setIn (values : List (String × Cell)) :
    (setIn column cell values).map (·.1)
      = if column ∈ values.map (·.1) then values.map (·.1) else values.map (·.1) ++ [column] := by
  induction values with
  | nil => rfl
  | cons value values ih =>
    obtain ⟨name, old⟩ := value
    rw [setIn]
    by_cases h : name = column
    · simp [h]
    · rw [if_neg h, List.map_cons, ih]
      by_cases hmem : column ∈ values.map (·.1)
      · simp [hmem]
      · simp [hmem, Ne.symm h]

theorem columns_set : (ctx.set column cell).columns
    = if column ∈ ctx.columns then ctx.columns else ctx.columns ++ [column] :=
  names_setIn ctx.values

theorem nodup_set (h : ctx.columns.Nodup) : (ctx.set column cell).columns.Nodup := by
  rw [columns_set]
  split
  · exact h
  · rename_i hnot
    exact List.nodup_append.mpr ⟨h, List.nodup_singleton column, fun name hname other hother heq =>
      hnot (List.mem_singleton.mp hother ▸ heq ▸ hname)⟩

/-! ## Rows of values -/

theorem ofValues_concat (values : List (String × Cell)) (value : String × Cell) :
    ofValues row (values ++ [value]) = (ofValues row values).set value.1 value.2 :=
  List.foldl_append

/-- The columns stand in the order in which they were first set. -/
theorem columns_ofValues (row : Nat) (values : List (String × Cell)) :
    (ofValues row values).columns = (values.map (·.1)).eraseDups := by
  induction values using List.reverseRec with
  | nil => rfl
  | append_singleton values value ih =>
    rw [ofValues_concat, columns_set, ih, List.map_append, List.eraseDups_append]
    simp only [List.mem_eraseDups]
    by_cases h : value.1 ∈ values.map (·.1)
    · simp [List.removeAll, h]
    · simp [List.removeAll, h, List.eraseDups_cons]

theorem nodup_ofValues (row : Nat) (values : List (String × Cell)) :
    (ofValues row values).columns.Nodup := by
  induction values using List.reverseRec with
  | nil => exact List.nodup_nil
  | append_singleton values value ih =>
    rw [ofValues_concat]
    exact nodup_set ih

/-- Each column has the value that it was given last. -/
theorem get?_ofValues (row : Nat) (values : List (String × Cell)) (column : String) :
    (ofValues row values).get? column = lastGiven values column := by
  induction values using List.reverseRec with
  | nil => rfl
  | append_singleton values value ih =>
    rw [ofValues_concat, get?_set, lastGiven_append, lastGiven_one, ih]
    split <;> rfl

/-! ## What a row is known by -/

theorem values_eq_map (h : ctx.columns.Nodup) :
    ctx.values.map some = ctx.columns.map fun column => (ctx.get? column).map (column, ·) := by
  rw [columns, List.map_map]
  refine List.map_congr_left fun value hvalue => ?_
  have hfind : ctx.values.find? (·.1 == value.1) = some value := by
    cases hfound : ctx.values.find? (·.1 == value.1) with
    | none => exact absurd (List.find?_eq_none.mp hfound value hvalue) (by simp)
    | some other =>
      have hname : other.1 = value.1 := by simpa using List.find?_some hfound
      have hmem := List.mem_of_find?_eq_some hfound
      rw [List.inj_on_of_nodup_map h hmem hvalue hname]
  simp [get?, hfind]

/-- Rows with the same columns and values hold the same. -/
theorem values_ext (h : ctx.columns.Nodup) (hcolumns : ctx'.columns = ctx.columns)
    (hget : ∀ column ∈ ctx.columns, ctx'.get? column = ctx.get? column) :
    ctx'.values = ctx.values := by
  have hsome : ctx'.values.map some = ctx.values.map some := by
    rw [values_eq_map h, values_eq_map (hcolumns ▸ h), hcolumns]
    exact List.map_congr_left fun column hcolumn => by rw [hget column hcolumn]
  exact List.map_injective_iff.mpr (fun _ _ => Option.some.inj) hsome

end CellRules.RowContext
