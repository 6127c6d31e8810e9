/-
CellRules.Proofs.Grid.Reading — what rules read of a grid.

Rules see a grid through contexts and datasets. For a grid whose columns have different names and
whose rows are full (`Grid.Regular`), what they read is given by `Grid.get?` alone: the values of a
focused row (`get?_focused`), and the rows that have some text in a column (`rowsWith_contexts`).
Grids that start without rows are regular, and stay so. Setting a cell changes no other
(`get?_set_of_ne`).
-/
import CellRules.Check.Unique
import CellRules.Grid.Source
import CellRules.Proofs.Row.Indexed

namespace CellRules

/-! ## Values of a row -/

namespace RowContext

variable {column other : String} {cell : Cell} {ctx : RowContext}

theorem find?_setIn (values : List (String × Cell)) :
    ((setIn column cell values).find? (·.1 == other)).map (·.2)
      = if other = column then some cell else (values.find? (·.1 == other)).map (·.2) := by
  induction values with
  | nil =>
    by_cases h : other = column
    · simp [setIn, h]
    · simp [setIn, h, Ne.symm h]
  | cons value values ih =>
    obtain ⟨name, old⟩ := value
    rw [setIn]
    split
    · rename_i hname
      subst hname
      by_cases h : other = name
      · simp [h]
      · simp [h, Ne.symm h]
    · rename_i hname
      by_cases h : name = other
      · subst h
        simp [hname]
      · simp [h, ih]

theorem get?_set : (ctx.set column cell).get? other
    = if other = column then some cell else ctx.get? other :=
  find?_setIn ctx.values

/-- Setting values leaves the row, and what is being judged, alone. -/
theorem foldl_set (values : List (String × Cell)) (ctx : RowContext) :
    (values.foldl (fun ctx (column, cell) => ctx.set column cell) ctx).row = ctx.row ∧
      (values.foldl (fun ctx (column, cell) => ctx.set column cell) ctx).column = ctx.column ∧
      (values.foldl (fun ctx (column, cell) => ctx.set column cell) ctx).pending = ctx.pending := by
  induction values generalizing ctx with
  | nil => exact ⟨rfl, rfl, rfl⟩
  | cons value values ih => exact ih (ctx.set value.1 value.2)

/-- Columns of different names have the values they were given. -/
theorem get?_foldl_set (values : List (String × Cell)) (hnodup : (values.map (·.1)).Nodup)
    (ctx : RowContext) :
    (values.foldl (fun ctx (column, cell) => ctx.set column cell) ctx).get? column
      = ((values.find? (·.1 == column)).map (·.2)).or (ctx.get? column) := by
  induction values generalizing ctx with
  | nil => rfl
  | cons value values ih =>
    obtain ⟨name, cell⟩ := value
    rw [List.map_cons, List.nodup_cons] at hnodup
    rw [List.foldl_cons, ih hnodup.2, get?_set]
    by_cases h : name = column
    · subst h
      have hnone : values.find? (·.1 == name) = none := by
        rw [List.find?_eq_none]
        intro v hv hname
        exact hnodup.1 (List.mem_map.mpr ⟨v, hv, beq_iff_eq.mp hname⟩)
      simp [hnone]
    · simp [h, Ne.symm h]

end RowContext

/-! ## Rows with a text -/

/-- A cell has no duplicate exactly if it is blank or no other row has its text. -/
theorem Check.unique_eq_success {ctx : RowContext} {rows : Dataset} {column : String} :
    Check.unique column ctx rows = .success ↔ ∀ x ∈ rows.rows, x.row ≠ ctx.row →
      ctx.key? column ≠ none → x.key? column ≠ ctx.key? column := by
  cases hcell : ctx.filled? column with
  | none =>
    have hkey : ctx.key? column = none := by simp [RowContext.key?, hcell]
    simp [unique_blank hcell, hkey]
  | some cell =>
    have hkey : ctx.key? column = some (Text.trim cell.toText) := by simp [RowContext.key?, hcell]
    have hempty : (((rows.index column).rowsWith cell.toText).filter (· != ctx.row)) = [] ↔
        ∀ x ∈ rows.rows, x.row ≠ ctx.row → x.key? column ≠ some (Text.trim cell.toText) := by
      simp only [List.filter_eq_nil_iff, Dataset.mem_rowsWith, bne_iff_ne]
      constructor
      · exact fun h x hx hne htext => h x.row ⟨x, hx, rfl, htext⟩ hne
      · rintro h _ ⟨x, hx, rfl, htext⟩ hne
        exact h x hx hne htext
    have hsuccess : Check.unique column ctx rows = .success ↔
        (((rows.index column).rowsWith cell.toText).filter (· != ctx.row)) = [] := by
      rw [unique_filled hcell, uniqueAmong, ← List.isEmpty_iff]
      split
      · rename_i h
        simp [h]
      · rename_i h
        simp [h, Verdict.error, Verdict.failure, Verdict.success]
    rw [hsuccess, hempty, hkey]
    simp

/-! ## Rows of a grid -/

namespace Grid

variable {g g' : Grid} {row other : Nat} {column c : String} {cell : Cell}

/-- Columns have different names, and every row has a cell for each. -/
structure Regular (g : Grid) : Prop where
  nodup : g.columns.Nodup
  full : ∀ cells ∈ g.rows, cells.length = g.columns.length

/-- A row as a context; empty where there is none. -/
def contextAt (g : Grid) (row : Nat) : RowContext := g.contextOf row (g.rows[row]?.getD [])

/-- A row as rules see it that judge its cell in a column. -/
def focused (g : Grid) (row : Nat) (column : String) : RowContext :=
  { g.contextAt row with column := some column, pending := none }

/-- The trimmed text of a cell, unless it is blank. -/
def textAt (g : Grid) (column : String) (row : Nat) : Option String :=
  ((g.get? row column).filter fun cell => !cell.isBlank).map fun cell => Text.trim cell.toText

theorem find?_zip (columns : List String) (cells : List Cell) :
    ((columns.zip cells).find? (·.1 == column)).map (·.2)
      = (columns.findIdx? (· == column)).bind fun position => cells[position]? := by
  induction columns generalizing cells with
  | nil => rfl
  | cons name columns ih =>
    cases cells with
    | nil => simp
    | cons cell cells =>
      by_cases h : name = column
      · simp [List.findIdx?_cons, h]
      · have hne : (name == column) = false := beq_eq_false_iff_ne.mpr h
        simp only [List.zip_cons_cons, List.find?_cons, List.findIdx?_cons, hne, ih,
          Bool.false_eq_true, if_false]
        cases columns.findIdx? (· == column) <;> rfl

/-- Pairing off may leave columns over. -/
theorem sublist_zip (columns : List String) (cells : List Cell) :
    ((columns.zip cells).map (·.1)).Sublist columns := by
  induction columns generalizing cells with
  | nil => exact .slnil
  | cons name columns ih =>
    cases cells with
    | nil => exact List.nil_sublist _
    | cons cell cells => exact (ih cells).cons_cons name

theorem row_contextAt : (g.contextAt row).row = row :=
  (RowContext.foldl_set _ _).1

theorem get?_contextAt (hg : g.Regular) : (g.contextAt row).get? column = g.get? row column := by
  have hnodup := hg.nodup.sublist (sublist_zip g.columns (g.rows[row]?.getD []))
  rw [contextAt, contextOf, RowContext.ofValues, RowContext.get?_foldl_set _ hnodup, find?_zip,
    get?, position?]
  cases g.columns.findIdx? (· == column) with
  | none => rfl
  | some position => cases g.rows[row]? <;> simp [RowContext.empty, RowContext.get?]

theorem key?_contextAt (hg : g.Regular) : (g.contextAt row).key? column = g.textAt column row := by
  rw [RowContext.key?, RowContext.filled?, get?_contextAt hg, textAt]

theorem get?_focused (hg : g.Regular) : (g.focused row column).get? c = g.get? row c :=
  get?_contextAt hg

/-- A regular grid has a cell for each of its rows and columns. -/
theorem isSome_get? (hg : g.Regular) (hrow : row < g.rows.length) (hcolumn : column ∈ g.columns) :
    (g.get? row column).isSome = true := by
  obtain ⟨position, hposition⟩ : ∃ position, g.position? column = some position := by
    rw [← Option.isSome_iff_exists, position?, List.findIdx?_isSome, List.any_eq_true]
    exact ⟨column, hcolumn, beq_self_eq_true column⟩
  have hlt : position < g.columns.length :=
    (List.findIdx?_eq_some_iff_getElem.mp hposition).1
  have hfull := hg.full g.rows[row] (List.getElem_mem hrow)
  simp [get?, hposition, hrow, hfull, hlt]

/-- Beyond its rows a grid has no cells. -/
theorem get?_of_length_le (hrow : g.rows.length ≤ row) : g.get? row column = none := by
  rw [get?, List.getElem?_eq_none hrow]
  cases g.position? column <;> rfl

theorem row_source (hrow : row < g.rows.length) : g.source.row row = .ok (g.contextAt row) := by
  simp [source, Grid.row, hrow, contextAt]

theorem focus_contextAt (hg : g.Regular) (hrow : row < g.rows.length)
    (hcolumn : column ∈ g.columns) :
    (g.contextAt row).focus column = .ok (g.focused row column) := by
  rw [RowContext.focus, get?_contextAt hg, if_pos (isSome_get? hg hrow hcolumn)]
  rfl

/-! ## All rows of a grid -/

/-- All rows in order. -/
theorem contexts_eq (g : Grid) : g.contexts = (List.range g.rows.length).map g.contextAt := by
  refine List.ext_getElem (by simp [contexts]) fun i h₁ h₂ => ?_
  have hi : i < g.rows.length := by simpa [contexts] using h₁
  simp [contexts, contextAt, hi]

/-- The rows of a grid that have a text in a column. -/
theorem rowsWith_contexts (hg : g.Regular) (column text : String) :
    ((Dataset.index ⟨g.contexts⟩ column).rowsWith text)
      = (List.range g.rows.length).filter
          fun row => g.textAt column row == some (Text.trim text) := by
  have hkeys : ((fun ctx : RowContext => ctx.key? column == some (Text.trim text)) ∘ g.contextAt)
      = fun row => g.textAt column row == some (Text.trim text) := by
    funext row
    simp only [Function.comp, RowContext.key?, RowContext.filled?, get?_contextAt hg, textAt]
  have hrows : ((·.row) ∘ g.contextAt) = id := by
    funext row
    exact row_contextAt
  rw [Dataset.rowsWith_index, contexts_eq, List.filter_map, List.map_map, hkeys, hrows, List.map_id]

/-- The row of an index. -/
theorem row?_contexts (hrow : row < g.rows.length) :
    (Dataset.mk g.contexts).row? row = some (g.contextAt row) := by
  simp [Dataset.row?, contexts_eq, hrow, row_contextAt]

/-- What is said of duplicates of a cell depends on the cell and on the texts of the others. -/
theorem unique_congr (hg : g.Regular) (hg' : g'.Regular) (hrows : g'.rows.length = g.rows.length)
    (hcell : g'.get? row column = g.get? row column)
    (hothers : ∀ other, other ≠ row → g'.get? other column = g.get? other column) :
    Check.unique column (g'.focused row column) ⟨g'.contexts⟩
      = Check.unique column (g.focused row column) ⟨g.contexts⟩ := by
  have htexts : ∀ other, g'.textAt column other = g.textAt column other := by
    intro other
    by_cases h : other = row
    · rw [h, textAt, textAt, hcell]
    · rw [textAt, textAt, hothers other h]
  have hrow : (g'.focused row column).row = (g.focused row column).row :=
    row_contextAt.trans row_contextAt.symm
  have hfilled : (g'.focused row column).filled? column = (g.focused row column).filled? column := by
    simp only [RowContext.filled?, get?_focused hg, get?_focused hg', hcell]
  cases hg_filled : (g.focused row column).filled? column with
  | none => rw [Check.unique_blank hg_filled, Check.unique_blank (hfilled.trans hg_filled)]
  | some cell =>
    rw [Check.unique_filled hg_filled, Check.unique_filled (hfilled.trans hg_filled)]
    simp only [rowsWith_contexts hg, rowsWith_contexts hg', hrows, hrow, htexts]

/-- A cell has no duplicate exactly if no other row has its text. -/
theorem unique_eq_success (hg : g.Regular) :
    Check.unique column (g.focused row column) ⟨g.contexts⟩ = .success ↔
      ∀ other, other ≠ row → other < g.rows.length → g.textAt column row ≠ none →
        g.textAt column other ≠ g.textAt column row := by
  have hfocused : (g.focused row column).key? column = g.textAt column row := key?_contextAt hg
  have hrow : (g.focused row column).row = row := row_contextAt
  rw [Check.unique_eq_success, hfocused, hrow, contexts_eq]
  simp only [List.forall_mem_map, List.mem_range, row_contextAt, key?_contextAt hg]
  exact ⟨fun h other hne hlt => h other hlt hne, fun h other hlt hne => h other hne hlt⟩

/-! ## Setting a cell -/

/-- A cell is set in its row, at the place of its column. -/
theorem set_ok (h : g.set row column cell = .ok g') :
    ∃ position cells, g.position? column = some position ∧ g.rows[row]? = some cells ∧
      g' = { g with rows := g.rows.set row (cells.set position cell) } := by
  unfold set at h
  split at h
  · cases h
  · rename_i position hposition
    split at h
    · cases h
    · rename_i cells hcells
      exact ⟨position, cells, hposition, hcells, (Except.ok.inj h).symm⟩

theorem length_set (h : g.set row column cell = .ok g') : g'.rows.length = g.rows.length := by
  obtain ⟨position, cells, -, -, rfl⟩ := set_ok h
  exact List.length_set

theorem columns_set (h : g.set row column cell = .ok g') : g'.columns = g.columns := by
  obtain ⟨position, cells, -, -, rfl⟩ := set_ok h
  rfl

theorem Regular.set (hg : g.Regular) (h : g.set row column cell = .ok g') : g'.Regular := by
  obtain ⟨position, cells, -, hcells, rfl⟩ := set_ok h
  refine ⟨hg.nodup, fun others hothers => ?_⟩
  rcases List.mem_or_eq_of_mem_set hothers with hmem | rfl
  · exact hg.full others hmem
  · rw [List.length_set]
    exact hg.full cells (List.mem_of_getElem? hcells)

/-- A grid of columns of different names is regular, however many rows are added to it. -/
theorem regular_empty {columns : List String} (hnodup : columns.Nodup) :
    (empty columns).Regular :=
  ⟨hnodup, nofun⟩

theorem length_rowOf (values : List (String × Cell)) :
    (g.rowOf values).length = g.columns.length := by
  have hfold : ∀ f : List Cell → String × Cell → List Cell,
      (∀ cells value, (f cells value).length = cells.length) →
      ∀ cells, (values.foldl f cells).length = cells.length := by
    intro f hf
    induction values with
    | nil => exact fun _ => rfl
    | cons value values ih => exact fun cells => (ih (f cells value)).trans (hf cells value)
  rw [rowOf, hfold, List.length_map]
  rintro cells ⟨column, cell⟩
  dsimp only
  split
  · exact List.length_set
  · rfl

theorem Regular.push (hg : g.Regular) (values : List (String × Cell)) :
    (g.push values).Regular := by
  refine ⟨hg.nodup, fun cells hcells => ?_⟩
  rcases List.mem_append.mp hcells with hcells | hcells
  · exact hg.full cells hcells
  · rw [List.mem_singleton.mp hcells]
    exact length_rowOf values

/-- Setting a cell changes no other. -/
theorem get?_set_of_ne (h : g.set row column cell = .ok g') (hne : other ≠ row ∨ c ≠ column) :
    g'.get? other c = g.get? other c := by
  obtain ⟨position, cells, hposition, hcells, rfl⟩ := set_ok h
  change (g.position? c).bind (fun place =>
      (g.rows.set row (cells.set position cell))[other]?.bind fun cells => cells[place]?)
    = (g.position? c).bind fun place => g.rows[other]?.bind fun cells => cells[place]?
  cases hplace : g.position? c with
  | none => rfl
  | some place =>
    simp only [Option.bind_some]
    by_cases hrow : other = row
    · subst hrow
      have hcolumn := hne.resolve_left (by simp)
      -- different columns have different places
      have hplaces : position ≠ place := by
        rintro rfl
        have hat := (List.findIdx?_eq_some_iff_getElem.mp hposition).2.1
        have hat' := (List.findIdx?_eq_some_iff_getElem.mp hplace).2.1
        exact hcolumn ((beq_iff_eq.mp hat').symm.trans (beq_iff_eq.mp hat))
      have hlt : other < g.rows.length := (List.getElem?_eq_some_iff.mp hcells).1
      rw [List.getElem?_set_self hlt, hcells, Option.bind_some, Option.bind_some,
        List.getElem?_set_ne hplaces]
    · rw [List.getElem?_set_ne (Ne.symm hrow)]

end Grid

end CellRules
