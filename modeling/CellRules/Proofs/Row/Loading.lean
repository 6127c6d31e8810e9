/-
CellRules.Proofs.Row.Loading — which rows are loaded.

The members of a row are decoded one by one, and none is compared with another. So a row is loaded
from some text exactly if its index fits into sixty-four bits and each of its cells is loaded from
some text (`loadable_iff`): repeated columns, a judged column that the row does not have, and a value
typed that the column does not have are all loaded.
-/
import CellRules.Proofs.Cell.Loading
import CellRules.Row.Json

namespace CellRules.RowContext

open Json Number

variable {ctx : RowContext} {row : Nat} {values : List (String × Cell)} {column : Option String}
  {pending : Option Cell} {j : Json}

/-- The cells that a row holds, and the one that was typed. -/
def cells (ctx : RowContext) : List Cell := ctx.values.map (·.2) ++ ctx.pending.toList

/-- The row is loaded from some text. -/
def Loadable (ctx : RowContext) : Prop := ∃ text, load? ofJson? text = some ctx

/-! ## Decoding -/

theorem loadable_of_valueOfJson? {value : String × Cell} (hj : Sound True j)
    (h : valueOfJson? j = some value) : value.2.Loadable := by
  unfold valueOfJson? at h
  split at h
  · rename_i name own
    simp only [Option.bind_eq_bind, Option.bind_eq_some_iff] at h
    obtain ⟨column, -, cell, hcell, heq⟩ := h
    obtain rfl := Option.some.inj heq
    cases hj with
    | array hitems =>
      exact Cell.loadable_iff.mpr (Cell.exists_sound_of_sound (hitems own (by simp)) hcell)
  · cases h

theorem loadable_of_optional? {cell : Cell} (hj : Sound True j)
    (h : j.optional? Cell.ofJson? = some (some cell)) : cell.Loadable := by
  unfold optional? at h
  split at h
  · cases h
  · obtain ⟨cell, hcell, heq⟩ := Option.map_eq_some_iff.mp h
    obtain rfl := Option.some.inj heq
    exact Cell.loadable_iff.mpr (Cell.exists_sound_of_sound hj hcell)

/-- A row that is loaded has an index that fits, and cells that are loaded by themselves. -/
theorem Loadable.cells (h : ctx.Loadable) :
    ctx.row < twoTo 64 ∧ ∀ cell ∈ ctx.cells, cell.Loadable := by
  obtain ⟨text, htext⟩ := h
  obtain ⟨j, hj, hdecode⟩ := sound_of_load? htext
  unfold ofJson? at hdecode
  split at hdecode
  · rename_i row values column pending hrecord
    simp only [Option.bind_eq_bind, Option.bind_eq_some_iff] at hdecode
    obtain ⟨n, ⟨_, -, hrow⟩, pairs, ⟨array, rfl, hvalues⟩, name, -, typed, htyped, heq⟩ := hdecode
    obtain rfl := Option.some.inj heq
    refine ⟨lt_of_nat64? hrow, fun cell hcell => ?_⟩
    rcases List.mem_append.mp hcell with hheld | hpending
    · obtain ⟨value, hvalue, rfl⟩ := List.mem_map.mp hheld
      have harray := sound_of_record? hj hrecord array (by simp)
      cases harray with
      | array hitems =>
        obtain ⟨item, hitem, hdecode⟩ := exists_of_mapM_eq_some hvalues hvalue
        exact loadable_of_valueOfJson? (hitems item hitem) hdecode
      | _ => cases hvalues
    · obtain rfl := Option.mem_toList.mp hpending
      cases pending with
      | none => cases htyped
      | some v => exact loadable_of_optional? (sound_of_record? hj hrecord v (by simp)) htyped
  · cases hdecode

/-! ## Encoding -/

theorem exists_items (values : List (String × Cell)) (h : ∀ value ∈ values, value.2.Loadable) :
    ∃ items : List Json, (∀ v ∈ items, Sound False v) ∧ items.mapM valueOfJson? = some values := by
  induction values with
  | nil => exact ⟨[], nofun, rfl⟩
  | cons value values ih =>
    obtain ⟨own, hown, hdecode⟩ := Cell.loadable_iff.mp (h value List.mem_cons_self)
    obtain ⟨items, hitems, hall⟩ := ih fun v hv => h v (List.mem_cons_of_mem _ hv)
    refine ⟨.array [.string value.1, own] :: items, ?_, ?_⟩
    · exact List.forall_mem_cons.mpr ⟨.array (by simpa using ⟨.string _, hown⟩), hitems⟩
    · simp [valueOfJson?, Json.string?, hdecode, hall]

theorem exists_optional (pending : Option Cell) (h : ∀ cell ∈ pending, cell.Loadable) :
    ∃ v : Json, Sound False v ∧ v.optional? Cell.ofJson? = some pending := by
  cases pending with
  | none => exact ⟨.null, .null, rfl⟩
  | some cell =>
    obtain ⟨own, hown, hdecode⟩ := Cell.loadable_iff.mp (h cell rfl)
    refine ⟨own, hown, ?_⟩
    unfold optional?
    split
    · cases hdecode
    · rw [hdecode, Option.map_some]

theorem optional?_string (column : Option String) :
    (Json.option .string column).optional? Json.string? = some column := by
  cases column <;> rfl

/-- A row is loaded from some text exactly if its index fits and its cells are loaded. -/
theorem loadable_iff :
    ctx.Loadable ↔ ctx.row < twoTo 64 ∧ ∀ cell ∈ ctx.cells, cell.Loadable := by
  refine ⟨Loadable.cells, fun ⟨hrow, hcells⟩ => ?_⟩
  obtain ⟨items, hitems, hvalues⟩ := exists_items ctx.values fun value hvalue =>
    hcells _ (List.mem_append_left _ (List.mem_map_of_mem hvalue))
  obtain ⟨typed, htyped, hpending⟩ := exists_optional ctx.pending fun cell hcell =>
    hcells _ (List.mem_append_right _ (Option.mem_toList.mpr hcell))
  let j : Json := .object [("row_index", .nat ctx.row), ("values", .array items),
    ("current_column", Json.option .string ctx.column), ("pending_value", typed)]
  have hj : Sound False j := .object (by
    simpa using ⟨sound_nat _, .array hitems, .option fun _ _ => .string _, htyped⟩)
  have hdecode : ofJson? j = some ctx := by
    have hrecord : j.record? false ["row_index", "values", "current_column", "pending_value"]
        = some [some (.nat ctx.row), some (.array items),
          some (Json.option .string ctx.column), some typed] := rfl
    simp [ofJson?, hrecord, nat64?_nat hrow, list?, hvalues, optional?_string, hpending]
  exact ⟨compact j, load?_compact hj hdecode⟩

/-! ## Rows without floats -/

theorem sound_toJson {unread : Prop} (hcells : ∀ cell ∈ ctx.cells, cell.Exact) :
    Sound unread ctx.toJson := by
  have hvalues : ∀ v ∈ ctx.values.map valueToJson, Sound unread v := by
    intro v hv
    obtain ⟨value, hvalue, rfl⟩ := List.mem_map.mp hv
    have hcell := hcells value.2 (List.mem_append_left _ (List.mem_map_of_mem hvalue))
    exact .array (by simpa using ⟨.string _, Cell.sound_toJson hcell⟩)
  have hpending : Sound unread (Json.option Cell.toJson ctx.pending) := .option fun cell hcell =>
    Cell.sound_toJson (hcells cell (List.mem_append_right _ (Option.mem_toList.mpr hcell)))
  exact .object (by
    simpa using ⟨sound_nat _, .array hvalues, .option fun _ _ => .string _, hpending⟩)

/-- A row without floats is decoded from what it is encoded as. -/
theorem ofJson?_toJson (hrow : ctx.row < twoTo 64) (hcells : ∀ cell ∈ ctx.cells, cell.Exact) :
    ofJson? ctx.toJson = some ctx := by
  have hrecord : ctx.toJson.record? false ["row_index", "values", "current_column", "pending_value"]
      = some [some (.nat ctx.row), some (.array (ctx.values.map valueToJson)),
        some (Json.option .string ctx.column), some (Json.option Cell.toJson ctx.pending)] := rfl
  have hvalues : (ctx.values.map valueToJson).mapM valueOfJson? = some ctx.values := by
    rw [mapM_eq_some, List.forall₂_map_left_iff]
    refine List.forall₂_same.mpr fun value hvalue => ?_
    have hcell := hcells value.2 (List.mem_append_left _ (List.mem_map_of_mem hvalue))
    simp [valueToJson, valueOfJson?, Json.string?, Cell.ofJson?_toJson hcell]
  have hpending : (Json.option Cell.toJson ctx.pending).optional? Cell.ofJson?
      = some ctx.pending := by
    cases hp : ctx.pending with
    | none => rfl
    | some cell =>
      have hcell := hcells cell (List.mem_append_right _ (by simp [hp]))
      have hdecode := Cell.ofJson?_toJson hcell
      unfold optional?
      split
      · rename_i hnull
        rw [show cell.toJson = .null from hnull] at hdecode
        cases hdecode
      · rw [Json.option, hdecode, Option.map_some]
  simp [ofJson?, hrecord, nat64?_nat hrow, list?, hvalues, optional?_string, hpending]

/-- A row without floats is loaded from its text. -/
theorem load?_toJson (hrow : ctx.row < twoTo 64) (hcells : ∀ cell ∈ ctx.cells, cell.Exact) :
    load? ofJson? (compact ctx.toJson) = some ctx :=
  load?_compact (sound_toJson hcells) (ofJson?_toJson hrow hcells)

end CellRules.RowContext
