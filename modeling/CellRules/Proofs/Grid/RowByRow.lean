/-
CellRules.Proofs.Grid.RowByRow — sources whose rows are all rows.

A source answers for one row and for all rows, and rules may be judged by either. Where all rows are
the rows read one by one (`Source.RowByRow`), they agree. A grid is such a source
(`rowByRow_source`), and so is whatever reads its rows cell by cell (`rowByRow_ofCells`). All rows
then come in the order of their indices (`RowByRow.ascending`).
-/
import CellRules.Proofs.Grid.Reading
import Mathlib.Data.List.Forall2
import Mathlib.Data.List.Pairwise

namespace CellRules

/-! ## Answers one after the other -/

/-- Asking one after the other comes to answers exactly if each one does. -/
theorem mapM_eq_ok {ε α β : Type} {f : α → Except ε β} {l : List α} {answers : List β} :
    l.mapM f = .ok answers ↔ List.Forall₂ (fun a b => f a = .ok b) l answers := by
  induction l generalizing answers with
  | nil => cases answers <;> simp [pure, Except.pure]
  | cons a l ih =>
    rw [List.mapM_cons]
    cases ha : f a with
    | error e => cases answers <;> simp [bind, Except.bind, ha]
    | ok b =>
      cases hl : l.mapM f with
      | error e => cases answers <;> simp [bind, Except.bind, ha, hl, ← ih]
      | ok rest => cases answers <;> simp [bind, Except.bind, pure, Except.pure, ha, hl, ← ih]

/-- What holds of each answer holds of those that come one after the other. -/
theorem forall_of_mapM_ok {ε α β : Type} {f : α → Except ε β} {l : List α} {answers : List β}
    {p : β → Prop} (h : l.mapM f = .ok answers) (hp : ∀ a ∈ l, ∀ b, f a = .ok b → p b) :
    ∀ b ∈ answers, p b := by
  have hall := mapM_eq_ok.mp h
  clear h
  induction hall with
  | nil => exact nofun
  | @cons a b l answers ha _ ih =>
    intro c hc
    rcases List.mem_cons.mp hc with rfl | hc
    · exact hp a (by simp) c ha
    · exact ih (fun a ha => hp a (by simp [ha])) c hc

namespace Source

variable {source : Source} {row : Nat} {ctx : RowContext} {rows : List RowContext}

/-- All rows come in the order of their indices. -/
def Ascending (source : Source) : Prop :=
  ∀ rows, source.allRows = .ok rows → (rows.map (·.row)).Pairwise (· < ·)

/-- Rows are read by their index, and all rows one by one. -/
structure RowByRow (source : Source) : Prop where
  index : ∀ row ctx, source.row row = .ok ctx → ctx.row = row
  allRows : source.allRows = (List.range source.rowCount).mapM source.row

/-- All rows are what is read of each in order. -/
theorem RowByRow.forall₂ (hs : source.RowByRow) (h : source.allRows = .ok rows) :
    List.Forall₂ (fun row ctx => source.row row = .ok ctx) (List.range source.rowCount) rows :=
  mapM_eq_ok.mp (hs.allRows ▸ h)

/-- All rows are numbered from zero. -/
theorem RowByRow.indices (hs : source.RowByRow) (h : source.allRows = .ok rows) :
    rows.map (·.row) = List.range source.rowCount := by
  rw [← List.forall₂_eq_eq_eq, List.forall₂_map_left_iff]
  refine List.Forall₂.flip ((hs.forall₂ h).imp fun row ctx hrow => ?_)
  exact hs.index row ctx hrow

theorem RowByRow.ascending (hs : source.RowByRow) : source.Ascending := by
  intro rows h
  rw [hs.indices h]
  exact List.pairwise_lt_range

/-- Each of all rows is the one that is read by its index. -/
theorem RowByRow.row_of_mem (hs : source.RowByRow) (h : source.allRows = .ok rows)
    (hctx : ctx ∈ rows) : source.row ctx.row = .ok ctx := by
  have hread := hs.forall₂ h
  rw [← hs.indices h, List.forall₂_map_left_iff, List.forall₂_same] at hread
  exact hread ctx hctx

/-- Rows that are read cell by cell are read by their index. -/
theorem row_rowOfCells {columns : List String} {rowCount : Nat}
    {cell : Nat → String → Except Problem (Option Cell)}
    (h : rowOfCells columns rowCount cell row = .ok ctx) : ctx.row = row := by
  have hset : ∀ (columns : List String) (before : RowContext), columns.foldlM
      (fun ctx column => (cell row column).map fun value => ctx.set column (value.getD .null))
      before = .ok ctx → ctx.row = before.row := by
    intro columns
    induction columns with
    | nil =>
      intro before h
      rw [← Except.ok.inj h]
    | cons column columns ih =>
      intro before h
      cases hcell : cell row column with
      | error problem => simp [hcell, Except.map, bind, Except.bind] at h
      | ok value =>
        have hrest := ih (before.set column (value.getD .null)) <| by
          simpa [hcell, Except.map, bind, Except.bind] using h
        exact hrest
  unfold rowOfCells at h
  split at h
  · cases h
  · exact hset columns (.empty row) h

/-- Whatever reads its rows cell by cell reads all rows one by one. -/
theorem rowByRow_ofCells (columns : List String) (rowCount : Nat)
    (cell : Nat → String → Except Problem (Option Cell)) :
    (ofCells columns rowCount cell).RowByRow where
  index _ _ h := row_rowOfCells h
  allRows := rfl

end Source

/-- All rows of a grid are its rows one by one. -/
theorem Grid.rowByRow_source (g : Grid) : g.source.RowByRow where
  index row ctx h := by
    have hlt : row < g.rows.length := by
      by_contra hle
      have hnone : g.rows[row]? = none := List.getElem?_eq_none (by omega)
      simp [source, Grid.row, hnone] at h
    rw [row_source hlt] at h
    rw [← Except.ok.inj h, row_contextAt]
  allRows := by
    have hread : List.Forall₂ (fun row ctx => g.source.row row = .ok ctx)
        (List.range g.rows.length) g.contexts := by
      rw [contexts_eq, List.forall₂_map_right_iff, List.forall₂_same]
      exact fun row hrow => row_source (List.mem_range.mp hrow)
    exact (mapM_eq_ok.mpr hread).symm

end CellRules
