/-
CellRules.Proofs.Grid.TwoReadings — rows read whole and rows read cell by cell.

A grid answers for a row as a whole (`Grid.source`); a source that knows single cells only reads the
row cell by cell (`Grid.cellwise`). Pairing names with cells lets a later column replace an earlier
one of its name, while a cell is looked up in the first. Cells are written in the first column of a
name only, so the others stay null whatever is pushed and set (`Sparse`). The whole row therefore
has no value for a name that is repeated, and every other value right (`get?_whole`); the row of
single cells has them all right (`get?_single`). So the two readings are the same exactly if the
row has no cell under a repeated name but null (`row_source_eq_iff`).
-/
import CellRules.Proofs.Grid.Growing
import CellRules.Proofs.Grid.RowByRow
import CellRules.Proofs.Row.Values

namespace CellRules

/-! ## Values of repeated columns -/

namespace RowContext

variable {row : Nat} {column : String} {values more : List (String × Cell)}

/-- Where a repeated name has nulls after its first value, null is what it was given last. -/
theorem lastGiven_of_pairwise (h : values.Pairwise fun a b => a.1 = b.1 → b.2 = .null)
    (column : String) :
    lastGiven values column
      = if 1 < (values.map (·.1)).count column then some .null
        else (values.find? (·.1 == column)).map (·.2) := by
  induction values with
  | nil => rfl
  | cons value values ih =>
    obtain ⟨hfirst, hrest⟩ := List.pairwise_cons.mp h
    rw [← List.singleton_append, lastGiven_append, lastGiven_one, List.singleton_append,
      List.map_cons, List.count_cons, List.find?_cons]
    by_cases hname : column = value.1
    · subst hname
      rw [if_pos rfl, beq_self_eq_true, if_pos rfl]
      by_cases hmem : value.1 ∈ values.map (·.1)
      · have hmany : 1 < (values.map (·.1)).count value.1 + 1 := by
          have := List.count_pos_iff.mpr hmem
          omega
        rw [if_pos hmany]
        obtain ⟨cell, hcell⟩ := Option.isSome_iff_exists.mp (isSome_lastGiven.mpr hmem)
        obtain ⟨found, hfound, rfl⟩ := Option.map_eq_some_iff.mp hcell
        have hfoundName : found.1 = value.1 := by simpa using List.find?_some hfound
        have hnull := hfirst found (List.mem_reverse.mp (List.mem_of_find?_eq_some hfound))
          hfoundName.symm
        rw [hcell, hnull]
        rfl
      · have hnone : lastGiven values value.1 = none :=
          Option.not_isSome_iff_eq_none.mp (mt isSome_lastGiven.mp hmem)
        rw [List.count_eq_zero_of_not_mem hmem, hnone]
        rfl
    · have hne : (value.1 == column) = false := beq_eq_false_iff_ne.mpr (Ne.symm hname)
      rw [if_neg hname, hne, ih hrest, Option.or_none]
      rfl

/-- Columns whose value depends on the name only have that value. -/
theorem lastGiven_map (columns : List String) (value : String → Cell) (column : String) :
    lastGiven (columns.map fun name => (name, value name)) column
      = if column ∈ columns then some (value column) else none := by
  induction columns with
  | nil => rfl
  | cons name columns ih =>
    rw [List.map_cons, ← List.singleton_append, lastGiven_append, ih, lastGiven_one]
    by_cases hmem : column ∈ columns
    · simp [hmem]
    · by_cases hname : column = name
      · subst hname
        simp [hmem]
      · simp [hmem, hname]

/-- Rows of the same names are the same exactly if each name was last given the same value. -/
theorem ofValues_eq_iff (hnames : values.map (·.1) = more.map (·.1)) :
    ofValues row values = ofValues row more ↔
      ∀ column, lastGiven values column = lastGiven more column := by
  constructor
  · intro heq column
    rw [← get?_ofValues row, heq, get?_ofValues]
  · intro hlast
    have hvalues : (ofValues row values).values = (ofValues row more).values := by
      refine values_ext (nodup_ofValues row more) ?_ fun column _ => ?_
      · rw [columns_ofValues, columns_ofValues, hnames]
      · rw [get?_ofValues, get?_ofValues, hlast]
    obtain ⟨hrow, hcolumn, hpending⟩ := foldl_set values (empty row)
    obtain ⟨hrow', hcolumn', hpending'⟩ := foldl_set more (empty row)
    have hext : ∀ a b : RowContext, a.row = b.row → a.values = b.values → a.column = b.column →
        a.pending = b.pending → a = b := by
      rintro ⟨⟩ ⟨⟩ rfl rfl rfl rfl
      rfl
    exact hext _ _ (hrow.trans hrow'.symm) hvalues (hcolumn.trans hcolumn'.symm)
      (hpending.trans hpending'.symm)

end RowContext

/-- Cells that are all there are set in order. -/
theorem Source.rowOfCells_ok {columns : List String} {rowCount row : Nat}
    {cell : Nat → String → Except Problem (Option Cell)} {value : String → Option Cell}
    (hrow : row < rowCount) (hcell : ∀ column, cell row column = .ok (value column)) :
    rowOfCells columns rowCount cell row
      = .ok (.ofValues row (columns.map fun column => (column, (value column).getD .null))) := by
  rw [rowOfCells, if_neg (Nat.not_le.mpr hrow)]
  induction columns using List.reverseRec with
  | nil => rfl
  | append_singleton columns column ih =>
    rw [List.foldlM_append, ih, List.map_append, List.map_singleton, RowContext.ofValues_concat]
    show ((cell row column).map _ >>= pure) = _
    rw [hcell]
    rfl

namespace Grid

variable {g g' : Grid} {row : Nat} {column : String} {cell : Cell}

/-- The grid as a source that reads its rows cell by cell. -/
def cellwise (g : Grid) : Source := .ofCells g.columns g.rows.length g.cell

/-! ## What is under a repeated name -/

/-- Of columns with one name only the first has cells other than null. -/
def Sparse (g : Grid) : Prop :=
  ∀ cells ∈ g.rows, (g.columns.zip cells).Pairwise fun a b => a.1 = b.1 → b.2 = .null

theorem sparse_empty (columns : List String) : (empty columns).Sparse := nofun

/-- Setting the cell of the first column of a name leaves the others null. -/
theorem pairwise_zip_set {columns : List String} {cells : List Cell} {position : Nat}
    (h : (columns.zip cells).Pairwise fun a b => a.1 = b.1 → b.2 = .null)
    (hposition : columns.findIdx? (· == column) = some position) (cell : Cell) :
    (columns.zip (cells.set position cell)).Pairwise fun a b => a.1 = b.1 → b.2 = .null := by
  obtain ⟨hlt, hname, hbefore⟩ := List.findIdx?_eq_some_iff_getElem.mp hposition
  rw [List.pairwise_iff_getElem] at h ⊢
  intro i j hi hj hij
  simp only [List.length_zip, List.length_set] at hi hj
  have hold := h i j (by simpa using hi) (by simpa using hj) hij
  simp only [List.getElem_zip] at hold ⊢
  intro hsame
  by_cases hplace : position = j
  · -- an earlier column of the name would be the first
    subst hplace
    have hfirst := hbefore i hij
    rw [hsame, beq_iff_eq.mp hname] at hfirst
    simp at hfirst
  · rw [List.getElem_set_ne hplace]
    exact hold hsame

theorem pairwise_zip_rowOf (g : Grid) (values : List (String × Cell)) :
    (g.columns.zip (g.rowOf values)).Pairwise fun a b => a.1 = b.1 → b.2 = .null := by
  rw [rowOf]
  refine List.foldlRecOn values _ (motive := fun cells : List Cell =>
    (g.columns.zip cells).Pairwise fun a b => a.1 = b.1 → b.2 = .null) ?_ ?_
  · refine List.pairwise_iff_getElem.mpr fun i j hi hj _ _ => ?_
    simp
  · rintro cells h ⟨column, cell⟩ -
    dsimp only
    split
    · rename_i position hposition
      exact pairwise_zip_set h hposition cell
    · exact h

theorem Sparse.take (h : g.Sparse) (edit : Edit) : (g.take edit).Sparse := by
  cases edit with
  | push values =>
    intro cells hcells
    rcases List.mem_append.mp hcells with hcells | hcells
    · exact h cells hcells
    · rw [List.mem_singleton.mp hcells]
      exact g.pairwise_zip_rowOf values
  | set row column cell =>
    rw [Grid.take]
    cases hset : g.set row column cell with
    | error problem => exact h
    | ok grid =>
      obtain ⟨position, before, hposition, hbefore, rfl⟩ := set_ok hset
      intro cells hcells
      rcases List.mem_or_eq_of_mem_set hcells with hmem | rfl
      · exact h cells hmem
      · exact pairwise_zip_set (h before (List.mem_of_getElem? hbefore)) hposition cell

theorem Sparse.takeAll (h : g.Sparse) (edits : List Edit) : (g.takeAll edits).Sparse := by
  induction edits generalizing g with
  | nil => exact h
  | cons edit edits ih => exact ih (h.take edit)

/-! ## The two readings of a row -/

/-- A cell under a repeated name is not null. -/
def Shadowed (g : Grid) (row : Nat) : Prop :=
  ∃ column cell, 1 < g.columns.count column ∧ g.get? row column = some cell ∧ cell ≠ .null

theorem cell_eq (g : Grid) (row : Nat) (column : String) :
    g.cell row column = if row < g.rows.length then .ok (g.get? row column)
      else .error (.rowOutOfRange row g.rows.length) := by
  by_cases hrow : row < g.rows.length
  · rw [if_pos hrow, Grid.cell, get?, List.getElem?_eq_getElem hrow]
    rfl
  · rw [if_neg hrow, Grid.cell, List.getElem?_eq_none (Nat.not_lt.mp hrow)]

/-- A row of a full grid has a cell at the place of each column. -/
theorem Full.position_lt {position : Nat} (hg : g.Full) (hrow : row < g.rows.length)
    (hposition : g.position? column = some position) : position < g.rows[row].length := by
  rw [hg _ (List.getElem_mem hrow)]
  exact (List.findIdx?_eq_some_iff_getElem.mp hposition).1

/-- A full grid has a cell for each of its rows and columns, and no other. -/
theorem Full.isSome_get? (hg : g.Full) (hrow : row < g.rows.length) :
    (g.get? row column).isSome = true ↔ column ∈ g.columns := by
  rw [← hasColumn_iff, hasColumn, get?, List.getElem?_eq_getElem hrow]
  cases hposition : g.position? column with
  | none => exact Iff.rfl
  | some position => simp [hg.position_lt hrow hposition]

/-- The row as its single cells make it. -/
def singly (g : Grid) (row : Nat) : RowContext :=
  .ofValues row (g.columns.map fun column => (column, (g.get? row column).getD .null))

theorem row_cellwise (hrow : row < g.rows.length) : g.cellwise.row row = .ok (g.singly row) :=
  Source.rowOfCells_ok hrow fun column => by rw [cell_eq, if_pos hrow]

theorem row_source_beyond (hrow : g.rows.length ≤ row) :
    g.source.row row = .error (.rowOutOfRange row g.rows.length) := by
  simp [source, Grid.row, hrow]

theorem row_cellwise_beyond (hrow : g.rows.length ≤ row) :
    g.cellwise.row row = .error (.rowOutOfRange row g.rows.length) :=
  if_pos hrow

/-- A row that is read whole has null under each repeated name. -/
theorem get?_whole (hg : g.Full) (hs : g.Sparse) (hrow : row < g.rows.length) (column : String) :
    (g.contextAt row).get? column
      = if 1 < g.columns.count column then some .null else g.get? row column := by
  have hmem := List.getElem_mem hrow
  rw [contextAt, contextOf, RowContext.get?_ofValues, List.getElem?_eq_getElem hrow,
    Option.getD_some, RowContext.lastGiven_of_pairwise (hs _ hmem),
    List.map_fst_zip (Nat.le_of_eq (hg _ hmem).symm), find?_zip, get?,
    List.getElem?_eq_getElem hrow]
  rfl

/-- A row that is read cell by cell has the value of each cell. -/
theorem get?_singly (hg : g.Full) (hrow : row < g.rows.length) (column : String) :
    (g.singly row).get? column = g.get? row column := by
  rw [singly, RowContext.get?_ofValues, RowContext.lastGiven_map]
  have hthere : (g.get? row column).isSome = true ↔ column ∈ g.columns := hg.isSome_get? hrow
  cases hcell : g.get? row column with
  | none =>
    rw [hcell] at hthere
    exact if_neg fun hmem => by simpa using hthere.mpr hmem
  | some cell =>
    rw [hcell] at hthere
    exact if_pos (hthere.mp rfl)

/-- The two readings of a row are the same exactly if nothing but null is under a repeated name. -/
theorem row_source_eq_iff (hg : g.Full) (hs : g.Sparse) (row : Nat) :
    g.source.row row = g.cellwise.row row ↔ ¬ g.Shadowed row := by
  by_cases hrow : row < g.rows.length
  · have hnames : (g.columns.zip (g.rows[row]?.getD [])).map (·.1)
        = (g.columns.map fun column => (column, (g.get? row column).getD .null)).map (·.1) := by
      rw [List.getElem?_eq_getElem hrow, Option.getD_some,
        List.map_fst_zip (Nat.le_of_eq (hg _ (List.getElem_mem hrow)).symm), List.map_map]
      exact (List.map_id _).symm
    have hsame : g.contextAt row = g.singly row ↔
        ∀ column, (g.contextAt row).get? column = (g.singly row).get? column := by
      rw [contextAt, contextOf, singly, RowContext.ofValues_eq_iff hnames]
      simp only [RowContext.get?_ofValues]
    rw [row_source hrow, row_cellwise hrow, Except.ok.injEq, hsame]
    simp only [get?_whole hg hs hrow, get?_singly hg hrow]
    constructor
    · rintro hall ⟨column, cell, hmany, hcell, hne⟩
      have hnull := hall column
      rw [if_pos hmany, hcell] at hnull
      exact hne (Option.some.inj hnull).symm
    · intro hnot column
      split
      · rename_i hmany
        have hmem : column ∈ g.columns := List.count_pos_iff.mp (by omega)
        obtain ⟨cell, hcell⟩ := Option.isSome_iff_exists.mp ((hg.isSome_get? hrow).mpr hmem)
        rw [hcell]
        by_contra hne
        exact hnot ⟨column, cell, hmany, hcell, fun hnull => hne (hnull ▸ rfl)⟩
      · rfl
  · have hbeyond := Nat.not_lt.mp hrow
    rw [row_source_beyond hbeyond, row_cellwise_beyond hbeyond]
    refine iff_of_true rfl ?_
    rintro ⟨column, cell, -, hcell, -⟩
    rw [get?_of_length_le hbeyond] at hcell
    cases hcell

/-! ## All rows -/

/-- A source that answers for the rows of a grid, for one row and for all of them, with the columns
of the grid and with these values. -/
structure ShownBy (g : Grid) (source : Source) (value : Nat → String → Option Cell) : Prop where
  row : ∀ row < g.rows.length, ∃ ctx, source.row row = .ok ctx ∧ ctx.row = row ∧
    ctx.columns = g.columns.eraseDups ∧ ∀ column, ctx.get? column = value row column
  beyond : ∀ row, g.rows.length ≤ row →
    source.row row = .error (.rowOutOfRange row g.rows.length)
  allRows : ∃ all, source.allRows = .ok all ∧ all.length = g.rows.length ∧
    ∀ row, all[row]? = (source.row row).toOption

theorem allRows_cellwise (g : Grid) :
    g.cellwise.allRows = .ok ((List.range g.rows.length).map g.singly) := by
  have hread : List.Forall₂ (fun row ctx => g.cellwise.row row = .ok ctx)
      (List.range g.rows.length) ((List.range g.rows.length).map g.singly) := by
    rw [List.forall₂_map_right_iff, List.forall₂_same]
    exact fun row hrow => row_cellwise (List.mem_range.mp hrow)
  exact mapM_eq_ok.mpr hread

/-- All rows in order are the rows one by one. -/
theorem getElem?_range_map {source : Source} {context : Nat → RowContext} {rows : Nat}
    (hthere : ∀ row < rows, source.row row = .ok (context row))
    (hbeyond : ∀ row, rows ≤ row → source.row row = .error (.rowOutOfRange row rows)) (row : Nat) :
    ((List.range rows).map context)[row]? = (source.row row).toOption := by
  by_cases hrow : row < rows
  · simp [hthere row hrow, hrow, Except.toOption]
  · simp [hbeyond row (Nat.not_lt.mp hrow), Nat.not_lt.mp hrow, Except.toOption]

theorem shownBy_source (hg : g.Full) (hs : g.Sparse) : g.ShownBy g.source
    fun row column => if 1 < g.columns.count column then some .null else g.get? row column where
  row row hrow := by
    refine ⟨g.contextAt row, row_source hrow, row_contextAt, ?_, get?_whole hg hs hrow⟩
    rw [contextAt, contextOf, RowContext.columns_ofValues, List.getElem?_eq_getElem hrow,
      Option.getD_some, List.map_fst_zip (Nat.le_of_eq (hg _ (List.getElem_mem hrow)).symm)]
  beyond _ := row_source_beyond
  allRows := ⟨g.contexts, rfl, by simp [contexts], by
    rw [contexts_eq]
    exact getElem?_range_map (fun _ => row_source) fun _ => row_source_beyond⟩

theorem shownBy_cellwise (hg : g.Full) : g.ShownBy g.cellwise g.get? where
  row row hrow := by
    refine ⟨g.singly row, row_cellwise hrow, (RowContext.foldl_set _ _).1, ?_, get?_singly hg hrow⟩
    rw [singly, RowContext.columns_ofValues, List.map_map]
    exact congrArg List.eraseDups (List.map_id g.columns)
  beyond _ := row_cellwise_beyond
  allRows := ⟨_, g.allRows_cellwise, by simp,
    getElem?_range_map (fun _ => row_cellwise) fun _ => row_cellwise_beyond⟩

theorem allRows_source_eq_iff (hg : g.Full) (hs : g.Sparse) :
    g.source.allRows = g.cellwise.allRows ↔ ∀ row, ¬ g.Shadowed row := by
  obtain ⟨whole, hwhole, -, hrow⟩ := (shownBy_source hg hs).allRows
  obtain ⟨single, hsingle, -, hrow'⟩ := (shownBy_cellwise hg).allRows
  rw [hwhole, hsingle, Except.ok.injEq]
  simp only [← row_source_eq_iff hg hs]
  constructor
  · rintro rfl row
    by_cases hlt : row < g.rows.length
    · have hoption := (hrow row).symm.trans (hrow' row)
      rw [row_source hlt, row_cellwise hlt] at hoption ⊢
      exact congrArg Except.ok (Option.some.inj hoption)
    · have hbeyond := Nat.not_lt.mp hlt
      rw [row_source_beyond hbeyond, row_cellwise_beyond hbeyond]
  · intro hsame
    refine List.ext_getElem? fun row => ?_
    rw [hrow, hrow', hsame]

/-! ## Setting one cell -/

/-- A cell that is set has the value. -/
theorem get?_set_self (hg : g.Full) (h : g.set row column cell = .ok g') :
    g'.get? row column = some cell := by
  obtain ⟨position, cells, hposition, hcells, rfl⟩ := set_ok h
  obtain ⟨hrow, rfl⟩ := List.getElem?_eq_some_iff.mp hcells
  change (g.position? column).bind (fun place =>
    (g.rows.set row (g.rows[row].set position cell))[row]?.bind fun cells => cells[place]?) = _
  rw [hposition, Option.bind_some, List.getElem?_set_self hrow, Option.bind_some,
    List.getElem?_set_self (hg.position_lt hrow hposition)]

/-- Setting a cell is refused, and then leaves the grid as it is, or it changes that cell only: both
among the cells that are looked up and among those that the grid holds. -/
structure SetsOne (g : Grid) (row : Nat) (column : String) (cell : Cell) : Prop where
  accepted : (∃ g', g.set row column cell = .ok g') ↔ column ∈ g.columns ∧ row < g.rows.length
  refused : ∀ problem, g.set row column cell = .error problem →
    g.take (.set row column cell) = g
  columns : ∀ g', g.set row column cell = .ok g' →
    g'.columns = g.columns ∧ g'.rows.length = g.rows.length
  cells : ∀ g', g.set row column cell = .ok g' → ∀ other name,
    g'.get? other name = if other = row ∧ name = column then some cell else g.get? other name
  places : ∀ g', g.set row column cell = .ok g' → ∀ other place,
    (g'.rows[other]?.bind fun cells => cells[place]?)
      = if other = row ∧ g.position? column = some place then some cell
        else g.rows[other]?.bind fun cells => cells[place]?

theorem setsOne (hg : g.Full) (row : Nat) (column : String) (cell : Cell) :
    g.SetsOne row column cell where
  accepted := by
    rw [← hasColumn_iff, hasColumn, Grid.set]
    cases hposition : g.position? column with
    | none => simp
    | some position =>
      by_cases hrow : row < g.rows.length
      · simp [hrow]
      · simp [hrow]
  refused problem h := by rw [Grid.take, h]; rfl
  columns g' h := ⟨columns_set h, length_set h⟩
  cells g' h other name := by
    split
    · rename_i hsame
      rw [hsame.1, hsame.2, get?_set_self hg h]
    · rename_i hne
      exact get?_set_of_ne h (by tauto)
  places g' h other place := by
    obtain ⟨position, cells, hposition, hcells, rfl⟩ := set_ok h
    obtain ⟨hrow, rfl⟩ := List.getElem?_eq_some_iff.mp hcells
    have hlt := hg.position_lt hrow hposition
    simp only [hposition, Option.some.injEq]
    by_cases hother : other = row
    · subst hother
      rw [List.getElem?_set_self hrow, Option.bind_some, List.getElem?_eq_getElem hrow,
        Option.bind_some, List.getElem?_set]
      by_cases hplace : position = place
      · subst hplace
        simp [hlt]
      · simp [hplace]
    · simp [List.getElem?_set_ne (Ne.symm hother), hother]

/-- However rows were pushed and cells set: read cell by cell, a row has what its cells have; read
whole, it has null under every repeated name and else what its cells have. The two are the same for
a row, and for all rows, exactly if no cell under a repeated name is anything but null. -/
theorem readings_agree_iff (columns : List String) (edits : List Edit) :
    let g := (empty columns).takeAll edits
    (∀ row column, g.cell row column = if row < g.rows.length then .ok (g.get? row column)
        else .error (.rowOutOfRange row g.rows.length)) ∧
      g.ShownBy g.cellwise g.get? ∧
      g.ShownBy g.source (fun row column =>
        if 1 < g.columns.count column then some .null else g.get? row column) ∧
      (∀ row, g.source.row row = g.cellwise.row row ↔ ¬ g.Shadowed row) ∧
      (g.source.allRows = g.cellwise.allRows ↔ ∀ row, ¬ g.Shadowed row) ∧
      ∀ row column cell, g.SetsOne row column cell := by
  intro g
  have hg : g.Full := ((empty columns).grows_takeAll edits).full (full_empty columns)
  have hs : g.Sparse := (sparse_empty columns).takeAll edits
  exact ⟨g.cell_eq, shownBy_cellwise hg, shownBy_source hg hs, row_source_eq_iff hg hs,
    allRows_source_eq_iff hg hs, setsOne hg⟩

/-- Where no name is repeated, all rows are read alike either way. -/
theorem readings_agree_iff_people :
    let g := (empty ["Name", "Age"]).takeAll
      [.push [("Age", .int 30), ("City", .text "Rome")], .set 0 "Name" (.text "Ann"),
        .set 1 "Name" (.text "Bob")]
    g.source.allRows = g.cellwise.allRows ∧ g.get? 0 "Name" = some (.text "Ann") := by
  intro g
  obtain ⟨-, -, -, -, hall, -⟩ := readings_agree_iff ["Name", "Age"]
    [.push [("Age", .int 30), ("City", .text "Rome")], .set 0 "Name" (.text "Ann"),
      .set 1 "Name" (.text "Bob")]
  refine ⟨hall.mpr ?_, rfl⟩
  rintro row ⟨column, -, hmany, -⟩
  have hnodup : g.columns.Nodup := by decide
  have honce := List.nodup_iff_count_le_one.mp hnodup column
  exact absurd hmany (Nat.not_lt.mpr honce)

/-- Two columns of one name, the first with a value: the cell has it and so has the row that is read
cell by cell; the row that is read whole has null. -/
theorem repeated_name_reads_null :
    let g := (empty ["A", "A"]).takeAll [.push [("A", .text "x")]]
    g.cell 0 "A" = .ok (some (.text "x")) ∧
      (g.cellwise.row 0).map (·.get? "A") = .ok (some (.text "x")) ∧
      (g.source.row 0).map (·.get? "A") = .ok (some .null) ∧
      g.source.row 0 ≠ g.cellwise.row 0 := by
  refine ⟨rfl, rfl, rfl, fun hsame => ?_⟩
  have hvalue := congrArg (Except.map (·.get? "A")) hsame
  cases hvalue

end Grid

end CellRules
