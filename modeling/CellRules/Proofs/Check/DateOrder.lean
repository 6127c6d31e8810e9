/-
CellRules.Proofs.Check.DateOrder — dates are in order however they are held.

A cell may hold a date as such or as the text that it has in messages. The text of a day stands for
its first moment, and that of a moment for the moment without its fraction; so without a fraction it
makes no difference how the cell is held (`Cell.moment?_asText_iff`), and two dates of a row are found
to be in order, or not, whichever of them are texts (`typed_or_text`).
-/
import CellRules.Check.DateOrder
import CellRules.Proofs.Calendar.Typed

namespace CellRules

open Calendar

variable {cell other : Cell}

namespace Cell

/-- The text of the cell, as a cell. -/
def asText (cell : Cell) : Cell := .text cell.toText

/-- The cell holds a day or a moment. -/
def IsDate : Cell → Prop
  | .date _ | .moment _ => True
  | _ => False

/-- The cell holds a day, or a moment without a fraction of a second. -/
def ToTheSecond : Cell → Prop
  | .date _ => True
  | .moment m => m.nano = 0
  | _ => False

/-- Both cells hold the same, but for a date that one of them may hold as its text. -/
inductive HoldsAlike : Cell → Cell → Prop
  | same (cell : Cell) : HoldsAlike cell cell
  | typed {cell : Cell} (h : cell.ToTheSecond) : HoldsAlike cell cell.asText
  | text {cell : Cell} (h : cell.ToTheSecond) : HoldsAlike cell.asText cell

theorem wholeSecond_eq_iff {m : Moment} : m.wholeSecond = m ↔ m.nano = 0 := by
  obtain ⟨date, hour, minute, second, nano, h⟩ := m
  simp [Moment.wholeSecond, eq_comm]

/-- The text of a date stands for the same moment exactly if there is no fraction of a second. -/
theorem moment?_asText_iff (h : cell.IsDate) :
    cell.asText.moment? = cell.moment? ↔ cell.ToTheSecond := by
  cases cell with
  | date d => exact iff_of_true (Moment.ofText?_dateText d) trivial
  | moment m =>
    simp only [asText, toText, moment?, Moment.ofText?_text, Option.some.injEq, wholeSecond_eq_iff,
      ToTheSecond]
  | _ => exact h.elim

theorem ToTheSecond.isDate (h : cell.ToTheSecond) : cell.IsDate := by
  cases cell with
  | date d => trivial
  | moment m => trivial
  | _ => exact h

theorem HoldsAlike.moment? (h : HoldsAlike cell other) : cell.moment? = other.moment? := by
  cases h with
  | same => rfl
  | typed h => exact ((moment?_asText_iff h.isDate).mpr h).symm
  | text h => exact (moment?_asText_iff h.isDate).mpr h

end Cell

/-- Columns that hold the same hold the same moment. -/
theorem bind_moment?_of_rel {x y : Option Cell} (h : Option.Rel Cell.HoldsAlike x y) :
    x.bind Cell.moment? = y.bind Cell.moment? := by
  cases h with
  | none => rfl
  | some h => exact h.moment?

/-- The text of a day is read as its first moment, that of a moment as the moment without its
fraction, so the text of a date stands for what the date does exactly if it has no fraction; and two
rows have their dates in the same order if they hold the same there, but for dates without a fraction
that one row holds as texts. -/
theorem typed_or_text :
    (∀ d : Date, Moment.ofText? (Cell.date d).toText = some d.midnight) ∧
      (∀ m : Moment, Moment.ofText? (Cell.moment m).toText = some m.wholeSecond) ∧
      (∀ cell : Cell, cell.IsDate → (cell.asText.moment? = cell.moment? ↔ cell.ToTheSecond)) ∧
      ∀ (a b : RowContext) (start finish : String),
        Option.Rel Cell.HoldsAlike (a.get? start) (b.get? start) →
        Option.Rel Cell.HoldsAlike (a.get? finish) (b.get? finish) →
        Check.startBeforeEnd start finish a = Check.startBeforeEnd start finish b := by
  refine ⟨Moment.ofText?_dateText, Moment.ofText?_text, fun _ => Cell.moment?_asText_iff,
    fun a b start finish hstart hfinish => ?_⟩
  rw [Check.startBeforeEnd, Check.startBeforeEnd, bind_moment?_of_rel hstart,
    bind_moment?_of_rel hfinish]

/-- The leap second at the end of the year 12345. -/
def leapSecond : Moment := ⟨⟨12345, 12, 31, by decide⟩, 23, 59, 60, 0, by decide⟩

/-- The first day of the year after. -/
def dayAfter : Date := ⟨12346, 1, 1, by decide⟩

/-- A leap second comes before the day after it, and not after it, held as texts or not. -/
theorem typed_or_text_leapSecond :
    let typed : RowContext :=
      ⟨0, [("From", .date dayAfter), ("To", .moment leapSecond)], none, none⟩
    let texts : RowContext :=
      ⟨0, [("From", .text "+12346-01-01"), ("To", .text "+12345-12-31T23:59:60")], none, none⟩
    Check.startBeforeEnd "From" "To" typed = Check.startBeforeEnd "From" "To" texts ∧
      Check.startBeforeEnd "From" "To" typed = .error "From must be on or before To" ∧
      Check.startBeforeEnd "To" "From" typed = Check.startBeforeEnd "To" "From" texts := by
  intro typed texts
  obtain ⟨-, -, -, horder⟩ := typed_or_text
  have hday : Cell.asText (.date dayAfter) = .text "+12346-01-01" :=
    congrArg Cell.text (by decide +kernel)
  have hleap : Cell.asText (.moment leapSecond) = .text "+12345-12-31T23:59:60" :=
    congrArg Cell.text (by decide +kernel)
  have hfrom : Option.Rel Cell.HoldsAlike (typed.get? "From") (texts.get? "From") := by
    show Option.Rel Cell.HoldsAlike (some (Cell.date dayAfter)) (some (Cell.text "+12346-01-01"))
    rw [← hday]
    exact .some (.typed trivial)
  have hto : Option.Rel Cell.HoldsAlike (typed.get? "To") (texts.get? "To") := by
    show Option.Rel Cell.HoldsAlike (some (Cell.moment leapSecond))
      (some (Cell.text "+12345-12-31T23:59:60"))
    rw [← hleap]
    exact .some (.typed rfl)
  exact ⟨horder typed texts "From" "To" hfrom hto, by decide +kernel,
    horder typed texts "To" "From" hto hfrom⟩

end CellRules
