/-
CellRules.Proofs.Row.Judged — which value of a row is judged.

A row has the value that was just typed beside the values of its columns. The required check and the
messages judge the value typed, the other checks the one that the column has. Whatever is done to a
row, its columns and their values are those of the row that was given the same values
(`values_takeAll`), and the judged column is one of them (`Placed.takeAll`). Typing a value writes
both places; setting a value writes the column only. So the two are the same value exactly until
another value is set over the one typed (`Overtaken`), and again once a column is chosen
(`current?_eq_iff_not_overtaken`).
-/
import CellRules.Check.Required
import CellRules.Rule.Template
import CellRules.Proofs.Row.Values

namespace CellRules.RowContext

/-! ## Changes of a row -/

/-- A change of a row: a value is set, a value is typed into a column that is judged from then on,
or a column is chosen to be judged. -/
inductive Change where
  | set (column : String) (cell : Cell)
  | typed (column : String) (cell : Cell)
  | focus (column : String)

/-- Takes one change. A column that the row does not have is not chosen. -/
def take (ctx : RowContext) : Change → RowContext
  | .set column cell => ctx.set column cell
  | .typed column cell => ctx.withPending column cell
  | .focus column => (ctx.focus column).toOption.getD ctx

/-- Takes changes in order. -/
def takeAll (ctx : RowContext) (changes : List Change) : RowContext := changes.foldl take ctx

/-- The value that a change gives to a column. -/
def Change.given? : Change → Option (String × Cell)
  | .set column cell => some (column, cell)
  | .typed column cell => some (column, cell)
  | .focus _ => none

/-- The values that changes give to columns, in order. -/
def given (changes : List Change) : List (String × Cell) := changes.filterMap Change.given?

/-- The change makes a column of the row the judged one. -/
def Change.Chooses (ctx : RowContext) : Change → Prop
  | .set _ _ => False
  | .typed _ _ => True
  | .focus column => column ∈ ctx.columns

/-- None of the changes makes a column the judged one when it comes. -/
def Unchosen (ctx : RowContext) (changes : List Change) : Prop :=
  ∀ before change after, changes = before ++ change :: after →
    ¬ change.Chooses (ctx.takeAll before)

/-- After a value was typed no column was chosen, and the column was last given another value. -/
def Overtaken (ctx : RowContext) (changes : List Change) : Prop :=
  ∃ before column cell after other, changes = before ++ .typed column cell :: after ∧
    Unchosen (ctx.takeAll (before ++ [.typed column cell])) after ∧
    lastGiven (given after) column = some other ∧ other ≠ cell

variable {ctx : RowContext} {row : Nat} {values : List (String × Cell)} {column : String}
  {cell : Cell} {change : Change} {changes before after : List Change}

theorem takeAll_append (ctx : RowContext) (before after : List Change) :
    ctx.takeAll (before ++ after) = (ctx.takeAll before).takeAll after :=
  List.foldl_append

theorem given_append (before after : List Change) :
    given (before ++ after) = given before ++ given after :=
  List.filterMap_append

theorem focus_ok (h : column ∈ ctx.columns) :
    ctx.focus column = .ok { ctx with column := some column, pending := none } :=
  if_pos (isSome_get?_iff.mpr h)

theorem focus_refused (h : column ∉ ctx.columns) :
    ctx.focus column = .error (.columnNotFound column ctx.row) :=
  if_neg (mt isSome_get?_iff.mp h)

/-! ## The values -/

/-- Whatever column is judged, the row has the values it was given. -/
theorem values_takeAll (row : Nat) (values : List (String × Cell)) (changes : List Change) :
    ((ofValues row values).takeAll changes).values
      = (ofValues row (values ++ given changes)).values := by
  induction changes using List.reverseRec with
  | nil => rw [given, List.filterMap_nil, List.append_nil]; rfl
  | append_singleton changes change ih =>
    rw [takeAll_append, given_append, ← List.append_assoc]
    show (take _ change).values = _
    cases change with
    | set column cell =>
      show setIn column cell _ = _
      rw [ih]
      exact (congrArg RowContext.values (ofValues_concat _ (column, cell))).symm
    | typed column cell =>
      show setIn column cell _ = _
      rw [ih]
      exact (congrArg RowContext.values (ofValues_concat _ (column, cell))).symm
    | focus column =>
      rw [show given [.focus column] = [] from rfl, List.append_nil, ← ih]
      show ((focus _ column).toOption.getD _).values = _
      by_cases h : column ∈ ((ofValues row values).takeAll changes).columns
      · rw [focus_ok h]; rfl
      · rw [focus_refused h]; rfl

theorem columns_takeAll (row : Nat) (values : List (String × Cell)) (changes : List Change) :
    ((ofValues row values).takeAll changes).columns
      = ((values ++ given changes).map (·.1)).eraseDups := by
  rw [← columns_ofValues row, columns, columns, values_takeAll]

theorem get?_takeAll (row : Nat) (values : List (String × Cell)) (changes : List Change)
    (column : String) : ((ofValues row values).takeAll changes).get? column
      = lastGiven (values ++ given changes) column := by
  rw [← get?_ofValues row, get?, get?, values_takeAll]

/-! ## The judged column -/

/-- The judged column, if there is one, is a column of the row. -/
def Placed (ctx : RowContext) : Prop := ∀ column, ctx.column = some column → column ∈ ctx.columns

theorem Placed.ofValues (row : Nat) (values : List (String × Cell)) :
    (ofValues row values).Placed := by
  intro column h
  rw [RowContext.ofValues, (foldl_set values (empty row)).2.1] at h
  cases h

theorem mem_columns_set {name : String} :
    name ∈ (ctx.set column cell).columns ↔ name = column ∨ name ∈ ctx.columns := by
  rw [columns_set]
  split
  · rename_i hmem
    exact ⟨.inr, fun h => h.elim (· ▸ hmem) id⟩
  · rw [List.mem_append, List.mem_singleton, or_comm]

theorem Placed.take (h : ctx.Placed) (change : Change) : (ctx.take change).Placed := by
  intro name hname
  cases change with
  | set column cell => exact mem_columns_set.mpr (.inr (h name hname))
  | typed column cell => exact mem_columns_set.mpr (.inl (Option.some.inj hname).symm)
  | focus column =>
    by_cases hmem : column ∈ ctx.columns
    · rw [RowContext.take, focus_ok hmem] at hname ⊢
      exact Option.some.inj hname ▸ hmem
    · rw [RowContext.take, focus_refused hmem] at hname ⊢
      exact h name hname

theorem Placed.takeAll (h : ctx.Placed) (changes : List Change) : (ctx.takeAll changes).Placed := by
  induction changes generalizing ctx with
  | nil => exact h
  | cons change changes ih => exact ih (h.take change)

/-- A change that chooses no column leaves the judged one, and the value typed, as they are. -/
theorem take_of_not_chooses (h : ¬ change.Chooses ctx) :
    (ctx.take change).column = ctx.column ∧ (ctx.take change).pending = ctx.pending := by
  cases change with
  | set column cell => exact ⟨rfl, rfl⟩
  | typed column cell => exact absurd trivial h
  | focus column =>
    rw [take, focus_refused h]
    exact ⟨rfl, rfl⟩

theorem takeAll_of_unchosen (h : ctx.Unchosen changes) :
    (ctx.takeAll changes).column = ctx.column ∧ (ctx.takeAll changes).pending = ctx.pending := by
  induction changes generalizing ctx with
  | nil => exact ⟨rfl, rfl⟩
  | cons change changes ih =>
    obtain ⟨hcolumn, hpending⟩ := take_of_not_chooses (h [] change changes rfl)
    have hrest : (ctx.take change).Unchosen changes := fun before other after heq =>
      h (change :: before) other after (congrArg (change :: ·) heq)
    obtain ⟨hcolumn', hpending'⟩ := ih hrest
    exact ⟨hcolumn'.trans hcolumn, hpending'.trans hpending⟩

/-- Either no column was chosen, or one was chosen last. -/
theorem unchosen_or_last (ctx : RowContext) (changes : List Change) :
    ctx.Unchosen changes ∨ ∃ before change after, changes = before ++ change :: after ∧
      change.Chooses (ctx.takeAll before) ∧ Unchosen (ctx.takeAll (before ++ [change])) after := by
  induction changes generalizing ctx with
  | nil => exact .inl fun before change after heq => by simp at heq
  | cons change changes ih =>
    rcases ih (ctx.take change) with hnone | ⟨before, last, after, rfl, hlast, hafter⟩
    · by_cases hfirst : change.Chooses ctx
      · exact .inr ⟨[], change, changes, rfl, hfirst, hnone⟩
      · refine .inl fun before other after heq => ?_
        cases before with
        | nil => exact (List.cons.inj heq).1 ▸ hfirst
        | cons head before =>
          obtain ⟨rfl, htail⟩ := List.cons.inj heq
          exact hnone before other after htail
    · exact .inr ⟨change :: before, last, after, rfl, hlast, hafter⟩

/-- What was chosen last is judged. -/
theorem takeAll_last (h : Unchosen (ctx.takeAll (before ++ [change])) after) :
    (ctx.takeAll (before ++ change :: after)).column = ((ctx.takeAll before).take change).column ∧
      (ctx.takeAll (before ++ change :: after)).pending
        = ((ctx.takeAll before).take change).pending := by
  rw [← List.singleton_append, ← List.append_assoc, takeAll_append _ _ after]
  rw [takeAll_append] at h ⊢
  exact takeAll_of_unchosen h

/-! ## The judged value -/

/-- As long as no column is chosen, the value typed last is judged, and the column has the value
that was set over it last. -/
theorem takeAll_typed
    (h : Unchosen ((ofValues row values).takeAll (before ++ [.typed column cell])) after) :
    let ctx := (ofValues row values).takeAll (before ++ .typed column cell :: after)
    ctx.column = some column ∧ ctx.current? = some cell ∧
      ctx.get? column = (lastGiven (given after) column).or (some cell) := by
  obtain ⟨hcolumn, hpending⟩ := takeAll_last h
  refine ⟨hcolumn, ?_, ?_⟩
  · rw [current?, hpending]
    rfl
  · rw [get?_takeAll, ← List.singleton_append, given_append, given_append, ← List.append_assoc,
      ← List.append_assoc, lastGiven_append, lastGiven_append,
      show given [.typed column cell] = [(column, cell)] from rfl, lastGiven_one, if_pos rfl]
    rfl

theorem current?_of_pending (h : ctx.pending = none) : ctx.current? = ctx.column.bind ctx.get? := by
  rw [current?, h, Option.none_or]

/-- The value judged is the one of the judged column unless another one was set over the one
typed. -/
theorem current?_eq_iff (row : Nat) (values : List (String × Cell)) (changes : List Change) :
    let ctx := (ofValues row values).takeAll changes
    ctx.current? = ctx.column.bind ctx.get? ↔ ¬ Overtaken (ofValues row values) changes := by
  constructor
  · rintro heq ⟨before, column, cell, after, other, rfl, hafter, hgiven, hne⟩
    obtain ⟨hcolumn, hcurrent, hget⟩ := takeAll_typed hafter
    rw [hcolumn, hcurrent, Option.bind_some, hget, hgiven] at heq
    exact hne (Option.some.inj heq).symm
  · intro hnot
    rcases unchosen_or_last (ofValues row values) changes with
      hnone | ⟨before, change, after, rfl, hchooses, hafter⟩
    · apply current?_of_pending
      rw [(takeAll_of_unchosen hnone).2]
      exact (foldl_set values (empty row)).2.2
    · cases change with
      | set column cell => exact absurd hchooses id
      | typed column cell =>
        obtain ⟨hcolumn, hcurrent, hget⟩ := takeAll_typed hafter
        rw [hcolumn, hcurrent, Option.bind_some, hget]
        cases hgiven : lastGiven (given after) column with
        | none => rfl
        | some other =>
          by_cases hsame : other = cell
          · rw [hsame]
            rfl
          · exact absurd ⟨before, column, cell, after, other, rfl, hafter, hgiven, hsame⟩ hnot
      | focus column =>
        apply current?_of_pending
        rw [(takeAll_last hafter).2, take, focus_ok hchooses]
        rfl

/-! ## What the checks judge -/

/-- The row without the value that was just typed: what the checks see that look at a column. -/
def held (ctx : RowContext) : RowContext := { ctx with pending := none }

theorem current?_held (ctx : RowContext) : ctx.held.current? = ctx.column.bind ctx.get? := rfl

/-- A required check of the value that the column has judges what a range, a form and a uniqueness
check judge. -/
theorem required_of_current? (hcolumn : ctx.column = some column)
    (h : ctx.current? = ctx.column.bind ctx.get?) :
    Check.required ctx
      = if (ctx.filled? column).isSome then .success else .error (column ++ " is required") := by
  rw [Check.required, h, hcolumn, Option.bind_some, filled?]
  cases ctx.get? column with
  | none => rfl
  | some cell => cases hblank : cell.isBlank <;> simp [hblank]

theorem render_of_current? (t : Template) (h : ctx.current? = ctx.column.bind ctx.get?) :
    t.render ctx = t.render ctx.held := by
  have hsame : t.substitutions ctx = t.substitutions ctx.held := by
    rw [Template.substitutions, Template.substitutions, h, current?_held]
    rfl
  rw [Template.render, Template.render, hsame]

/-- Whatever is done to a row of values, its columns stand in the order in which they were first
given a value, each with the value given last, and the judged column is one of them. The value
judged is the one that this column has unless another one was set over the one typed; then, and only
then, the required check and the messages judge another value than the checks of columns. -/
theorem current?_eq_iff_not_overtaken (row : Nat) (values : List (String × Cell))
    (changes : List Change) :
    let ctx := (ofValues row values).takeAll changes
    ctx.columns = ((values ++ given changes).map (·.1)).eraseDups ∧ ctx.columns.Nodup ∧
      (∀ column, ctx.get? column = lastGiven (values ++ given changes) column) ∧
      (∀ column, ctx.column = some column → column ∈ ctx.columns) ∧
      (ctx.current? = ctx.column.bind ctx.get? ↔ ¬ Overtaken (ofValues row values) changes) ∧
      (¬ Overtaken (ofValues row values) changes → ∀ column, ctx.column = some column →
        Check.required ctx
            = (if (ctx.filled? column).isSome then .success
              else .error (column ++ " is required")) ∧
          ∀ t : Template, t.render ctx = t.render ctx.held) := by
  intro ctx
  have hjudged := current?_eq_iff row values changes
  refine ⟨columns_takeAll row values changes, ?_, get?_takeAll row values changes,
    (Placed.ofValues row values).takeAll changes, hjudged, fun hnot column hcolumn => ?_⟩
  · rw [show ctx.columns = _ from columns_takeAll row values changes, ← columns_ofValues row]
    exact nodup_ofValues row _
  · have hcurrent := hjudged.mpr hnot
    exact ⟨required_of_current? hcolumn hcurrent, fun t => render_of_current? t hcurrent⟩

/-- An age that was typed and chosen again is judged as the row has it. -/
theorem current?_eq_iff_not_overtaken_age :
    let ctx := (ofValues 0 [("Name", .text "Ann"), ("Age", .int 30)]).takeAll
      [.typed "Age" (.int 31), .set "Age" (.int 32), .focus "Age", .focus "City"]
    ctx.columns = ["Name", "Age"] ∧ ctx.current? = some (.int 32) ∧
      Check.required ctx = .success := by
  intro ctx
  obtain ⟨_, _, _, _, hjudged, hchecks⟩ := current?_eq_iff_not_overtaken 0
    [("Name", .text "Ann"), ("Age", .int 30)]
    [.typed "Age" (.int 31), .set "Age" (.int 32), .focus "Age", .focus "City"]
  exact ⟨by decide, rfl, (hchecks (hjudged.mp rfl) "Age" rfl).1⟩

/-- An age that is set over the one typed is not judged: the age typed is. Cleared so, a required
age is still there for the required check, and missing for the check of the columns. -/
theorem typed_age_outlives_set :
    let ctx := (empty 0).takeAll [.typed "Age" (.int 31), .set "Age" .null]
    ctx.column.bind ctx.get? = some .null ∧ ctx.current? = some (.int 31) ∧
      ctx.current? ≠ ctx.column.bind ctx.get? ∧ Check.required ctx = .success ∧
      Check.requiredFields ["Age"] ctx = .error "Required fields missing: Age" :=
  ⟨rfl, rfl, nofun, rfl, by decide⟩

end CellRules.RowContext
