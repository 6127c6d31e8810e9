/-
CellRules.Proofs.Cell.Blank — a cell is blank exactly if its text is.

Only the absence of a value and a text of white space are blank cells, and they alone have a blank
text: every other value is written with a character that is not white space (`Cell.isBlank_toText`).
-/
import CellRules.Cell.Basic
import CellRules.Proofs.Calendar.ReadBack
import CellRules.Proofs.Json.Numeral

namespace CellRules

open Calendar Number Text

variable {s : String} {c : Char}

theorem Text.not_blank_of_mem (hmem : c ∈ s.toList) (hc : isSpace c = false) :
    isBlank s = false := by
  rw [isBlank, List.all_eq_false]
  exact ⟨c, hmem, by simp [hc]⟩

/-! ## Numbers and dates -/

theorem Number.exists_digit (n : Nat) : ∃ c ∈ digitsOf n, isSpace c = false := by
  obtain ⟨c, tail, hdigits, hc⟩ := (digits_toDigits n).exists_cons
  refine ⟨c, ?_, not_space_of_digit hc⟩
  rw [digitsOf, hdigits]
  exact List.mem_cons_self

/-- Wherever the point stands, digits or the point are written. -/
theorem Number.exists_positional (n : Nat) (point : Int) :
    ∃ c ∈ positional (digitsOf n) point, isSpace c = false := by
  unfold positional
  split_ifs
  · exact ⟨'0', by simp, rfl⟩
  · exact ⟨'.', by simp, rfl⟩
  · obtain ⟨c, hmem, hc⟩ := exists_digit n
    exact ⟨c, List.mem_append_left _ hmem, hc⟩

theorem Number.signed_not_blank {negative : Bool} {cs : List Char}
    (h : ∃ c ∈ cs, isSpace c = false) : isBlank (signed negative cs) = false := by
  obtain ⟨c, hmem, hc⟩ := h
  refine not_blank_of_mem (c := c) ?_ hc
  rw [signed, String.toList_ofList]
  split
  · exact List.mem_cons_of_mem _ hmem
  · exact hmem

theorem Number.plain_not_blank (x : Float) : isBlank (plain x) = false := by
  unfold plain
  split
  · rfl
  · exact signed_not_blank ⟨'i', by simp, rfl⟩
  · exact signed_not_blank ⟨'0', by simp, rfl⟩
  · exact signed_not_blank (exists_positional _ _)

/-- A layout with a mark that is not white space is not written as white space. -/
theorem Calendar.write_not_blank {layout : Layout} (m : Moment) (hmark : Piece.mark c ∈ layout)
    (hc : isSpace c = false) : isBlank (layout.write m) = false := by
  refine not_blank_of_mem (c := c) ?_ hc
  rw [Layout.write, String.toList_ofList, List.mem_flatMap]
  exact ⟨.mark c, hmark, by simp [Piece.write]⟩

/-! ## Cells -/

/-- A cell is blank exactly if its text is. -/
theorem Cell.isBlank_toText (cell : Cell) : Text.isBlank cell.toText = cell.isBlank := by
  cases cell with
  | null => rfl
  | bool b => cases b <;> rfl
  | int i =>
    obtain ⟨c, hmem, hc⟩ := exists_digit i.toInt.natAbs
    refine not_blank_of_mem (c := c) ?_ hc
    rw [toText, Json.toList_toString_int]
    exact List.mem_append_right _ hmem
  | float x => exact plain_not_blank x
  | text s => rfl
  | date d => exact write_not_blank (c := '-') d.midnight (by decide) rfl
  | moment m => exact write_not_blank (c := 'T') m (by decide) rfl

end CellRules
