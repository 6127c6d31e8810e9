/-
CellRules.Proofs.Row.Saved — rows that were saved are loaded again as they were.

Whatever a row holds is something that it was given (`cells_takeAll`), and a row without floats is
loaded from its text, as a cell is that is not a float. So a row that was made without floats is
loaded as it was when it was saved, and its text is the text of no other row. In particular it tells
a row whose judged cell was just cleared from one into which nothing was typed (`load?_saved`).
-/
import CellRules.Proofs.Row.Coherent
import CellRules.Proofs.Row.Loading

namespace CellRules.RowContext

open Calendar Json Number

variable {ctx other : RowContext} {row : Nat} {values : List (String × Cell)} {column : String}
  {cell : Cell} {change : Change} {changes : List Change}

/-! ## What a row holds -/

theorem mem_cells_iff :
    cell ∈ ctx.cells ↔ (∃ value ∈ ctx.values, value.2 = cell) ∨ ctx.pending = some cell := by
  simp only [cells, List.mem_append, List.mem_map, Option.mem_toList]

theorem mem_setIn {value : String × Cell} (h : value ∈ setIn column cell values) :
    value ∈ values ∨ value = (column, cell) := by
  induction values with
  | nil => exact .inr (List.mem_singleton.mp h)
  | cons first rest ih =>
    obtain ⟨name, old⟩ := first
    rw [setIn] at h
    split at h
    · rename_i hname
      rcases List.mem_cons.mp h with rfl | hrest
      · exact .inr (by rw [hname])
      · exact .inl (List.mem_cons_of_mem _ hrest)
    · rcases List.mem_cons.mp h with rfl | hrest
      · exact .inl List.mem_cons_self
      · exact (ih hrest).imp_left (List.mem_cons_of_mem _)

theorem cells_set {new : Cell} (h : cell ∈ (ctx.set column new).cells) :
    cell ∈ ctx.cells ∨ cell = new := by
  rcases mem_cells_iff.mp h with ⟨value, hvalue, rfl⟩ | hpending
  · rcases mem_setIn hvalue with hheld | rfl
    · exact .inl (mem_cells_iff.mpr (.inl ⟨value, hheld, rfl⟩))
    · exact .inr rfl
  · exact .inl (mem_cells_iff.mpr (.inr hpending))

/-- What a row holds after a change it held before, or the change gave it. -/
theorem cells_take (h : cell ∈ (ctx.take change).cells) :
    cell ∈ ctx.cells ∨ ∃ column, change.given? = some (column, cell) := by
  cases change with
  | set column new => exact (cells_set h).imp_right fun heq => ⟨column, by rw [heq, Change.given?]⟩
  | typed column new =>
    rcases mem_cells_iff.mp h with hheld | hpending
    · exact (cells_set (mem_cells_iff.mpr (.inl hheld))).imp_right fun heq =>
        ⟨column, by rw [heq, Change.given?]⟩
    · obtain rfl := Option.some.inj hpending
      exact .inr ⟨column, rfl⟩
  | focus column =>
    by_cases hcolumn : column ∈ ctx.columns
    · rw [take, focus_ok hcolumn] at h
      refine .inl (mem_cells_iff.mpr ?_)
      rcases mem_cells_iff.mp h with hheld | hpending
      · exact .inl hheld
      · cases hpending
    · rw [take, focus_refused hcolumn] at h
      exact .inl h

/-- What a row holds after changes it held before, or they gave it. -/
theorem cells_takeAll (h : cell ∈ (ctx.takeAll changes).cells) :
    cell ∈ ctx.cells ∨ ∃ value ∈ given changes, value.2 = cell := by
  induction changes generalizing ctx with
  | nil => exact .inl h
  | cons change changes ih =>
    rcases ih h with hfirst | ⟨value, hvalue, rfl⟩
    · refine (cells_take hfirst).imp_right fun ⟨column, hgiven⟩ => ⟨(column, cell), ?_, rfl⟩
      exact List.mem_filterMap.mpr ⟨change, List.mem_cons_self, hgiven⟩
    · obtain ⟨later, hlater, hgiven⟩ := List.mem_filterMap.mp hvalue
      exact .inr ⟨value, List.mem_filterMap.mpr ⟨later, List.mem_cons_of_mem _ hlater, hgiven⟩, rfl⟩

/-- What a row of values holds is one of them. -/
theorem cells_ofValues (h : cell ∈ (ofValues row values).cells) :
    ∃ value ∈ values, value.2 = cell := by
  induction values using List.reverseRec with
  | nil => cases h
  | append_singleton values value ih =>
    rw [ofValues_concat] at h
    rcases cells_set h with hheld | rfl
    · obtain ⟨first, hfirst, rfl⟩ := ih hheld
      exact ⟨first, List.mem_append_left _ hfirst, rfl⟩
    · exact ⟨value, List.mem_append_right _ List.mem_cons_self, rfl⟩

theorem row_take (ctx : RowContext) (change : Change) : (ctx.take change).row = ctx.row := by
  cases change with
  | set column cell => rfl
  | typed column cell => rfl
  | focus column =>
    by_cases h : column ∈ ctx.columns
    · rw [take, focus_ok h]
      rfl
    · rw [take, focus_refused h]
      rfl

theorem row_takeAll (row : Nat) (values : List (String × Cell)) (changes : List Change) :
    ((ofValues row values).takeAll changes).row = row := by
  induction changes using List.reverseRec with
  | nil => exact (foldl_set values (empty row)).1
  | append_singleton changes change ih =>
    rw [takeAll_append]
    exact (row_take _ change).trans ih

/-! ## Rows that were saved -/

/-- The row has an index of sixty-four bits and no float. -/
structure Exact (ctx : RowContext) : Prop where
  row : ctx.row < twoTo 64
  cells : ∀ cell ∈ ctx.cells, cell.Exact

/-- The text that a row is saved as. -/
def saved (ctx : RowContext) : String := compact ctx.toJson

theorem Exact.load?_saved (h : ctx.Exact) : load? ofJson? ctx.saved = some ctx :=
  load?_toJson h.row h.cells

/-- Rows without floats are told apart by their texts. -/
theorem Exact.saved_inj (h : ctx.Exact) (hother : other.Exact) :
    ctx.saved = other.saved ↔ ctx = other := by
  refine ⟨fun heq => Option.some.inj ?_, congrArg saved⟩
  rw [← h.load?_saved, heq, hother.load?_saved]

/-- A row made without floats has none. -/
theorem exact_made (hrow : row < twoTo 64)
    (hgiven : ∀ value ∈ values ++ given changes, value.2.Exact) :
    ((ofValues row values).takeAll changes).Exact where
  row := (row_takeAll row values changes).trans_lt hrow
  cells cell hcell := by
    rcases cells_takeAll hcell with hvalues | ⟨value, hvalue, rfl⟩
    · obtain ⟨value, hvalue, rfl⟩ := cells_ofValues hvalues
      exact hgiven value (List.mem_append_left _ hvalue)
    · exact hgiven value (List.mem_append_right _ hvalue)

theorem Exact.cleared (h : ctx.Exact) (column : String) :
    (ctx.withPending column .null).Exact where
  row := h.row
  cells cell hcell := by
    have htyped : cell ∈ (ctx.take (.typed column .null)).cells := hcell
    rcases cells_take htyped with hheld | ⟨name, hgiven⟩
    · exact h.cells cell hheld
    · cases hgiven
      trivial

theorem Exact.held (h : ctx.Exact) : ctx.held.Exact where
  row := h.row
  cells cell hcell := by
    rcases mem_cells_iff.mp hcell with hheld | hpending
    · exact h.cells cell (mem_cells_iff.mpr (.inl hheld))
    · cases hpending

/-- A cell that is not a float is loaded from its text. A row that was made has no float if it was
given none, and as long as it has none, and an index of sixty-four bits, it is loaded from its text as
it was: its text is that of no other such row, and where its judged cell was just cleared, what is
loaded says so, while the same row without a value typed is loaded without one. -/
theorem saved_loaded :
    (∀ cell : Cell, cell.Exact → load? Cell.ofJson? (compact cell.toJson) = some cell) ∧
      ∀ (row : Nat) (values : List (String × Cell)) (changes : List Change), row < twoTo 64 →
        let ctx := (ofValues row values).takeAll changes
        ((∀ value ∈ values ++ given changes, value.2.Exact) → ∀ cell ∈ ctx.cells, cell.Exact) ∧
          ((∀ cell ∈ ctx.cells, cell.Exact) →
            load? ofJson? ctx.saved = some ctx ∧
              (∀ other : RowContext, other.Exact → (ctx.saved = other.saved ↔ ctx = other)) ∧
              ∀ column : String,
                let cleared := ctx.withPending column .null
                load? ofJson? cleared.saved = some cleared ∧ cleared.pending = some .null ∧
                  load? ofJson? cleared.held.saved = some cleared.held ∧
                  cleared.held.pending = none) := by
  refine ⟨fun cell h => load?_compact (Cell.sound_toJson h) (Cell.ofJson?_toJson h), ?_⟩
  intro row values changes hrow ctx
  refine ⟨fun hgiven => (exact_made hrow hgiven).cells, fun hcells => ?_⟩
  have hexact : ctx.Exact := ⟨(row_takeAll row values changes).trans_lt hrow, hcells⟩
  refine ⟨hexact.load?_saved, fun other => hexact.saved_inj, fun column => ?_⟩
  have hcleared := hexact.cleared column
  exact ⟨hcleared.load?_saved, rfl, hcleared.held.load?_saved, rfl⟩

/-- The row of the greatest index, with the least integer, a leap second before the year 0, a note of
characters that are escaped and some that are not, and a value that was just cleared. -/
theorem saved_loaded_greatestIndex :
    let values : List (String × Cell) :=
      [("Low", .int Int64.minValue), ("Note", .text "\x01\"\\é\x7f\n"),
        ("At", .moment ⟨⟨-12345, 12, 31, by decide⟩, 23, 59, 60, 999999999, by decide⟩)]
    let ctx := (ofValues 18446744073709551615 values).takeAll [.typed "Gone" .null]
    load? ofJson? ctx.saved = some ctx ∧
      ctx.saved =
        "\x7b\"row_index\":18446744073709551615,\"values\":[" ++
          "[\"Low\",\x7b\"type\":\"int\",\"value\":-9223372036854775808\x7d]," ++
          "[\"Note\",\x7b\"type\":\"text\",\"value\":\"\\u0001\\\"\\\\é\x7f\\n\"\x7d]," ++
          "[\"At\",\x7b\"type\":\"date_time\"," ++
            "\"value\":\"-12345-12-31T23:59:60.999999999\"\x7d]," ++
          "[\"Gone\",\x7b\"type\":\"null\"\x7d]]," ++
          "\"current_column\":\"Gone\",\"pending_value\":\x7b\"type\":\"null\"\x7d\x7d" := by
  intro values ctx
  obtain ⟨-, hrows⟩ := saved_loaded
  obtain ⟨hexact, hloaded⟩ :=
    hrows 18446744073709551615 values [.typed "Gone" .null] (by decide)
  have hcells : ∀ cell ∈ ctx.cells, cell.Exact :=
    hexact (by simp [values, given, Change.given?, Cell.Exact])
  exact ⟨(hloaded hcells).1, by decide +kernel⟩

end CellRules.RowContext
