/-
CellRules.Proofs.Check.Unique — duplicates found by an index and by comparing rows.

The uniqueness check looks a text up in the index of its column, which leaves out blank cells and
trims the others when it is built. Comparing the cell with the cell of every other row finds the same
rows in the same order (`others_eq_twins`), whatever cells the column holds and whether or not the
cell is in the rows at all. So the check fails exactly for a cell that has a twin, and names its twins
(`unique_iff_twin`); which indices were built before makes no difference, nor does the order of the
checks (`inTurn_eq`).
-/
import CellRules.Check.Unique
import CellRules.Proofs.Row.Indexed
import Mathlib.Data.List.Nodup

namespace CellRules

/-- The text of a filled cell, trimmed, is what the row is found by. -/
theorem RowContext.key?_eq_some {ctx : RowContext} {column key : String} :
    ctx.key? column = some key ↔ ∃ cell, ctx.get? column = some cell ∧ cell.isBlank = false ∧
      Text.trim cell.toText = key := by
  simp [key?, filled?, Option.filter_eq_some_iff, and_assoc]

namespace Check

variable {column : String} {ctx x y : RowContext} {rows : Dataset} {s : IndexedRows} {cell : Cell}

/-! ## Twins -/

/-- Both rows have a cell in the column that is not blank, with the same text once trimmed. -/
def SameText (column : String) (x y : RowContext) : Prop :=
  ∃ cell other, x.get? column = some cell ∧ y.get? column = some other ∧
    cell.isBlank = false ∧ other.isBlank = false ∧ Text.trim cell.toText = Text.trim other.toText

/-- A row that has another index and the same text in the column. -/
def Twin (column : String) (ctx x : RowContext) : Prop :=
  x.row ≠ ctx.row ∧ SameText column ctx x

theorem sameText_iff :
    SameText column x y ↔ ∃ key, x.key? column = some key ∧ y.key? column = some key := by
  constructor
  · rintro ⟨cell, other, hcell, hother, hfilled, hfilled', htext⟩
    exact ⟨_, RowContext.key?_eq_some.mpr ⟨cell, hcell, hfilled, rfl⟩,
      RowContext.key?_eq_some.mpr ⟨other, hother, hfilled', htext.symm⟩⟩
  · rintro ⟨key, hx, hy⟩
    obtain ⟨cell, hcell, hfilled, htext⟩ := RowContext.key?_eq_some.mp hx
    obtain ⟨other, hother, hfilled', htext'⟩ := RowContext.key?_eq_some.mp hy
    exact ⟨cell, other, hcell, hother, hfilled, hfilled', htext.trans htext'.symm⟩

theorem SameText.symm (h : SameText column x y) : SameText column y x := by
  obtain ⟨key, hx, hy⟩ := sameText_iff.mp h
  exact sameText_iff.mpr ⟨key, hy, hx⟩

instance : Decidable (SameText column x y) :=
  decidable_of_iff ((x.key? column).isSome = true ∧ y.key? column = x.key? column) <| by
    rw [sameText_iff, Option.isSome_iff_exists]
    constructor
    · rintro ⟨⟨key, hx⟩, hsame⟩
      exact ⟨key, hx, hsame.trans hx⟩
    · rintro ⟨key, hx, hy⟩
      exact ⟨⟨key, hx⟩, hy.trans hx.symm⟩

instance : Decidable (Twin column ctx x) :=
  inferInstanceAs (Decidable (x.row ≠ ctx.row ∧ SameText column ctx x))

/-- The indices of the twins of a cell, by comparing it with the cell of each row. -/
def twins (column : String) (ctx : RowContext) (rows : Dataset) : List Nat :=
  (rows.rows.filter fun x => Twin column ctx x).map (·.row)

theorem twins_eq_nil_iff : twins column ctx rows = [] ↔ ¬ ∃ x ∈ rows.rows, Twin column ctx x := by
  simp [twins]

/-- A row of the dataset has its index among the twins exactly if it is one, provided that the rows
have different indices. -/
theorem row_mem_twins (hrows : (rows.rows.map (·.row)).Nodup) (hx : x ∈ rows.rows) :
    x.row ∈ twins column ctx rows ↔ Twin column ctx x := by
  simp only [twins, List.mem_map, List.mem_filter, decide_eq_true_eq]
  constructor
  · rintro ⟨z, ⟨hz, htwin⟩, hrow⟩
    have hsame : z = x := List.inj_on_of_nodup_map hrows hz hx hrow
    exact hsame ▸ htwin
  · intro htwin
    exact ⟨x, ⟨hx, htwin⟩, rfl⟩

/-! ## The index and the comparison -/

/-- The other rows that the index has for the text of a cell are the twins of the cell. -/
theorem others_eq_twins (h : ctx.filled? column = some cell) :
    ((rows.index column).rowsWith cell.toText).filter (· != ctx.row) = twins column ctx rows := by
  have hkey : ctx.key? column = some (Text.trim cell.toText) := by simp [RowContext.key?, h]
  have htwin : ∀ x : RowContext,
      (x.row != ctx.row && x.key? column == some (Text.trim cell.toText))
        = decide (Twin column ctx x) := by
    intro x
    rw [Bool.eq_iff_iff]
    simp [Twin, sameText_iff, hkey]
  rw [Dataset.rowsWith_index, List.filter_map, List.filter_filter, twins]
  simp only [Function.comp, htwin]

/-- A blank cell has no twins. -/
theorem twins_of_blank (h : ctx.filled? column = none) : twins column ctx rows = [] := by
  have hkey : ctx.key? column = none := by simp [RowContext.key?, h]
  rw [twins_eq_nil_iff]
  rintro ⟨x, -, -, hsame⟩
  obtain ⟨key, hctx, -⟩ := sameText_iff.mp hsame
  rw [hkey] at hctx
  cases hctx

/-- What was built before changes neither the answer nor the rows. -/
theorem uniqueIn_eq (column : String) (ctx : RowContext) (s : IndexedRows) :
    (uniqueIn column ctx s).1 = unique column ctx s.rows ∧
      (uniqueIn column ctx s).2.rows = s.rows := by
  unfold unique uniqueIn
  cases ctx.filled? column with
  | none => exact ⟨rfl, rfl⟩
  | some cell => simp [IndexedRows.index_fst, IndexedRows.rows_index]

/-- Checks made one after the other, each with the indices that those before it have left. -/
def inTurn (s : IndexedRows) : List (String × RowContext) → List Verdict
  | [] => []
  | (column, ctx) :: checks => (uniqueIn column ctx s).1 :: inTurn (uniqueIn column ctx s).2 checks

/-- Each of several checks answers as it would alone. -/
theorem inTurn_eq (s : IndexedRows) (checks : List (String × RowContext)) :
    inTurn s checks = checks.map fun check => unique check.1 check.2 s.rows := by
  induction checks generalizing s with
  | nil => rfl
  | cons check checks ih =>
    obtain ⟨hverdict, hrows⟩ := uniqueIn_eq check.1 check.2 s
    rw [inTurn, ih, hverdict, hrows, List.map_cons]

/-! ## The verdict -/

/-- What is said of a cell that has twins. -/
def twinsMessage (column : String) (cell : Cell) (rows : List Nat) : String :=
  column ++ " '" ++ Text.trim cell.toText ++ "' must be unique (also in row " ++
    ", ".intercalate (rows.map toString) ++ ")"

theorem twinsMessage_not_blank (column : String) (cell : Cell) (rows : List Nat) :
    Text.isBlank (twinsMessage column cell rows) = false := by
  rw [Text.isBlank, Bool.eq_false_iff, ne_eq, List.all_eq_true]
  intro hblank
  have hquote : '\'' ∈ (twinsMessage column cell rows).toList := by simp [twinsMessage]
  exact absurd (hblank '\'' hquote) (by decide)

/-- The check passes a cell without twins and names the twins of any other. -/
theorem unique_eq_ite (h : ctx.get? column = some cell) :
    unique column ctx rows =
      if twins column ctx rows = [] then .success
      else ⟨false, .error, twinsMessage column cell (twins column ctx rows)⟩ := by
  cases hfilled : ctx.filled? column with
  | none => rw [unique_blank hfilled, if_pos (twins_of_blank hfilled)]
  | some found =>
    have hfound : ctx.get? column = some found := (Option.filter_eq_some_iff.mp hfilled).1
    obtain rfl : found = cell := Option.some.inj (hfound.symm.trans h)
    have hmessage : Verdict.error (twinsMessage column found (twins column ctx rows))
        = ⟨false, .error, twinsMessage column found (twins column ctx rows)⟩ :=
      Verdict.failure_of_not_blank (twinsMessage_not_blank ..)
    rw [unique_filled hfilled, others_eq_twins hfilled, uniqueAmong, ← hmessage]
    simp only [List.isEmpty_iff]
    rfl

/-- The check fails exactly if the cell has a twin: if it is not blank and another row has a cell in
the column that is not blank either and has the same text once trimmed. Its message then names the
twins in the order of the rows. None of this depends on the indices that were built before, and it is
the same for each of several checks made one after the other. Where rows have different indices, a
row is named as a twin of another exactly if the other is named as a twin of it. -/
theorem unique_iff_twin (column : String) (ctx : RowContext) (s : IndexedRows) :
    (uniqueIn column ctx s).1 = unique column ctx s.rows ∧
      (∀ checks, inTurn s checks = checks.map fun check => unique check.1 check.2 s.rows) ∧
      ((unique column ctx s.rows).fails = true ↔ ∃ x ∈ s.rows.rows, Twin column ctx x) ∧
      ((∃ x ∈ s.rows.rows, Twin column ctx x) → ∃ cell, ctx.get? column = some cell ∧
        unique column ctx s.rows
          = ⟨false, .error, twinsMessage column cell (twins column ctx s.rows)⟩) ∧
      ((¬ ∃ x ∈ s.rows.rows, Twin column ctx x) → unique column ctx s.rows = .success) ∧
      ((s.rows.rows.map (·.row)).Nodup → ∀ x ∈ s.rows.rows, ∀ y ∈ s.rows.rows,
        (y.row ∈ twins column x s.rows ↔ x.row ∈ twins column y s.rows)) := by
  have hnamed : (∃ x ∈ s.rows.rows, Twin column ctx x) → ∃ cell, ctx.get? column = some cell ∧
      unique column ctx s.rows
        = ⟨false, .error, twinsMessage column cell (twins column ctx s.rows)⟩ := by
    rintro ⟨x, hx, htwin⟩
    have ⟨_, cell, _, hcell, _⟩ := htwin
    refine ⟨cell, hcell, ?_⟩
    rw [unique_eq_ite hcell, if_neg]
    intro hnone
    exact twins_eq_nil_iff.mp hnone ⟨x, hx, htwin⟩
  have hpassed : (¬ ∃ x ∈ s.rows.rows, Twin column ctx x) →
      unique column ctx s.rows = .success := by
    intro hnone
    cases hcell : ctx.get? column with
    | none =>
      apply unique_blank
      simp [RowContext.filled?, hcell]
    | some cell => rw [unique_eq_ite hcell, if_pos (twins_eq_nil_iff.mpr hnone)]
  refine ⟨(uniqueIn_eq column ctx s).1, inTurn_eq s, ?_, hnamed, hpassed, ?_⟩
  · constructor
    · intro hfails
      by_contra hnone
      rw [hpassed hnone] at hfails
      cases hfails
    · intro htwin
      obtain ⟨cell, -, hverdict⟩ := hnamed htwin
      rw [hverdict]
      rfl
  · intro hrows x hx y hy
    rw [row_mem_twins hrows hy, row_mem_twins hrows hx]
    constructor
    · rintro ⟨hne, hsame⟩
      exact ⟨hne.symm, hsame.symm⟩
    · rintro ⟨hne, hsame⟩
      exact ⟨hne.symm, hsame.symm⟩

/-- Codes of several kinds in rows whose indices are not their places. -/
def mixedCodes : IndexedRows where
  rows := ⟨[⟨4, [("Code", .int 7)], none, none⟩, ⟨9, [("Code", .text "x")], none, none⟩,
    ⟨2, [("Code", .text " 7 ")], none, none⟩, ⟨5, [("Name", .text "7")], none, none⟩,
    ⟨0, [("Code", .text "  ")], none, none⟩]⟩

/-- A code that was just typed into the second row is found in the first row as a number and in the
third between blanks; the old code of its own row, rows without a code, and blank codes do not count.
The first and the third row name each other. -/
theorem unique_iff_twin_codes :
    let typed : RowContext := ⟨9, [("Code", .text "7\t")], some "Code", some (.text "7\t")⟩
    unique "Code" typed mixedCodes.rows
        = .error "Code '7' must be unique (also in row 4, 2)" ∧
      inTurn mixedCodes [("Name", typed), ("Code", typed)]
        = [.success, .error "Code '7' must be unique (also in row 4, 2)"] ∧
      (mixedCodes.rows.rows.map (·.row)).Nodup ∧
      2 ∈ twins "Code" ⟨4, [("Code", .int 7)], none, none⟩ mixedCodes.rows ∧
      (2 ∈ twins "Code" ⟨4, [("Code", .int 7)], none, none⟩ mixedCodes.rows ↔
        4 ∈ twins "Code" ⟨2, [("Code", .text " 7 ")], none, none⟩ mixedCodes.rows) := by
  intro typed
  have hrows : (mixedCodes.rows.rows.map (·.row)).Nodup := by decide
  obtain ⟨-, hturn, -, hnamed, -, hpairs⟩ := unique_iff_twin "Code" typed mixedCodes
  obtain ⟨cell, hcell, hverdict⟩ := hnamed ⟨_, List.mem_cons_self, by decide +kernel⟩
  obtain rfl : Cell.text "7\t" = cell := Option.some.inj hcell
  have hcode : unique "Code" typed mixedCodes.rows
      = .error "Code '7' must be unique (also in row 4, 2)" := by
    rw [hverdict]
    decide +kernel
  have hpair := hpairs hrows ⟨4, [("Code", .int 7)], none, none⟩ (by simp [mixedCodes])
    ⟨2, [("Code", .text " 7 ")], none, none⟩ (by simp [mixedCodes])
  refine ⟨hcode, ?_, hrows, hpair.mpr (by decide +kernel), hpair⟩
  rw [hturn, List.map_cons, List.map_cons, hcode]
  decide +kernel

end Check

end CellRules
