/-
CellRules.Proofs.Row.Coherent — which rows can be made.

A row is made of values by setting, typing and choosing (`Made`). Its columns are then distinct, the
judged column is one of them, and a value is typed into a judged column only; every row of this kind
can be made (`made_iff`): whatever value is typed, another one can be set over it. A row is `Coherent`
if the value judged is also the one that the column has, which are the rows that can be made without
setting a value over the one typed (`coherent_iff`).
-/
import CellRules.Proofs.Row.Judged

namespace CellRules.RowContext

variable {ctx : RowContext} {column : String} {cell old : Cell}

/-- The row can be made of values and changes. -/
def Made (ctx : RowContext) : Prop :=
  ∃ values changes, (ofValues ctx.row values).takeAll changes = ctx

/-- The columns of the row are distinct, the judged column is one of them, and the value judged is
the one that it has. -/
structure Coherent (ctx : RowContext) : Prop where
  nodup : ctx.columns.Nodup
  placed : ctx.Placed
  judged : ctx.current? = ctx.column.bind ctx.get?

/-! ## Values that are there already -/

theorem eraseDups_of_nodup {names : List String} (h : names.Nodup) : names.eraseDups = names := by
  induction names with
  | nil => rfl
  | cons name names ih =>
    rw [List.nodup_cons] at h
    have hfilter : names.filter (fun other => !other == name) = names := by
      refine List.filter_eq_self.mpr fun other hother => ?_
      simpa using ne_of_mem_of_not_mem hother h.1
    rw [List.eraseDups_cons, hfilter, ih h.2]

theorem values_ofValues (h : ctx.columns.Nodup) :
    (ofValues ctx.row ctx.values).values = ctx.values := by
  refine values_ext h ?_ fun column _ => ?_
  · rw [columns_ofValues]
    exact eraseDups_of_nodup h
  · rw [ofValues, get?_foldl_set _ h]
    exact Option.or_none

/-- A row of distinct columns, but for the column judged, is made of its values. -/
theorem ofValues_self (h : ctx.columns.Nodup) :
    ofValues ctx.row ctx.values = ⟨ctx.row, ctx.values, none, none⟩ := by
  have hvalues := values_ofValues h
  obtain ⟨hrow, hcolumn, hpending⟩ := foldl_set ctx.values (empty ctx.row)
  rw [ofValues] at hvalues ⊢
  rw [RowContext.mk.injEq]
  exact ⟨hrow, hvalues, hcolumn, hpending⟩

/-- Setting a value that a column has makes no difference. -/
theorem values_set_self (h : ctx.columns.Nodup) (hget : ctx.get? column = some old) :
    (ctx.set column old).values = ctx.values := by
  have hcolumn : column ∈ ctx.columns := isSome_get?_iff.mp (by simp [hget])
  refine values_ext h (by rw [columns_set, if_pos hcolumn]) fun name _ => ?_
  rw [get?_set]
  split
  · rename_i hname
    rw [← hget, hname]
  · rfl

theorem setIn_setIn (column : String) (cell old : Cell) (values : List (String × Cell)) :
    setIn column old (setIn column cell values) = setIn column old values := by
  induction values with
  | nil => simp [setIn]
  | cons value values ih =>
    obtain ⟨name, first⟩ := value
    by_cases h : name = column
    · simp [setIn, h]
    · simp [setIn, h, ih]

/-! ## Rows that can be made -/

theorem nodup_takeAll (row : Nat) (values : List (String × Cell)) (changes : List Change) :
    ((ofValues row values).takeAll changes).columns.Nodup := by
  rw [columns_takeAll, ← columns_ofValues row]
  exact nodup_ofValues row _

/-- A value is typed into a judged column only. -/
theorem pending_takeAll (row : Nat) (values : List (String × Cell)) (changes : List Change)
    (h : ((ofValues row values).takeAll changes).column = none) :
    ((ofValues row values).takeAll changes).pending = none := by
  rcases unchosen_or_last (ofValues row values) changes with
    hnone | ⟨before, change, after, rfl, hchooses, hafter⟩
  · rw [(takeAll_of_unchosen hnone).2]
    exact (foldl_set values (empty row)).2.2
  · rw [(takeAll_last hafter).1] at h
    cases change with
    | set column cell => exact absurd hchooses id
    | typed column cell => cases h
    | focus column =>
      rw [take, focus_ok hchooses] at h
      cases h

/-- The rows that can be made. -/
theorem made_iff :
    ctx.Made ↔ ctx.columns.Nodup ∧ ctx.Placed ∧ (ctx.column = none → ctx.pending = none) := by
  constructor
  · rintro ⟨values, changes, h⟩
    rw [← h]
    exact ⟨nodup_takeAll _ _ _, (Placed.ofValues _ _).takeAll changes, pending_takeAll _ _ _⟩
  · rintro ⟨hnodup, hplaced, hpending⟩
    have hvalues := ofValues_self hnodup
    obtain ⟨row, values, column, pending⟩ := ctx
    cases column with
    | none =>
      obtain rfl : pending = none := hpending rfl
      exact ⟨values, [], hvalues⟩
    | some column =>
      have hcolumn : column ∈ columns ⟨row, values, none, none⟩ := hplaced column rfl
      cases pending with
      | none =>
        refine ⟨values, [.focus column], ?_⟩
        rw [hvalues, takeAll, List.foldl_cons, List.foldl_nil, take, focus_ok hcolumn]
        rfl
      | some cell =>
        -- The value that the column has is set over the one typed.
        obtain ⟨old, hold⟩ := Option.isSome_iff_exists.mp (isSome_get?_iff.mpr hcolumn)
        have hset : setIn column old (setIn column cell values) = values := by
          rw [setIn_setIn]
          exact values_set_self hnodup hold
        refine ⟨values, [.typed column cell, .set column old], ?_⟩
        rw [hvalues]
        show RowContext.mk row (setIn column old (setIn column cell values)) _ _ = _
        rw [hset]
        rfl

theorem coherent_iff : ctx.Coherent ↔ ∃ values changes,
    (ofValues ctx.row values).takeAll changes = ctx ∧
      ¬ Overtaken (ofValues ctx.row values) changes := by
  constructor
  · rintro ⟨hnodup, hplaced, hjudged⟩
    have hpending : ctx.column = none → ctx.pending = none := by
      intro hnone
      rw [current?, hnone] at hjudged
      simpa using hjudged
    obtain ⟨values, changes, h⟩ := made_iff.mpr ⟨hnodup, hplaced, hpending⟩
    refine ⟨values, changes, h, (current?_eq_iff ctx.row values changes).mp ?_⟩
    rwa [h]
  · rintro ⟨values, changes, h, hnot⟩
    have hjudged := (current?_eq_iff ctx.row values changes).mpr hnot
    obtain ⟨hnodup, hplaced, -⟩ := made_iff.mp ⟨values, changes, h⟩
    simp only [h] at hjudged
    exact ⟨hnodup, hplaced, hjudged⟩

end CellRules.RowContext
