/-
CellRules.Proofs.Calendar.ReadBack — dates that were written are read again.

A layout is written piece by piece and read piece by piece. A piece is read as it was written if what
follows does not belong to it (`Piece.Ends`): a month takes two digits at most and has two, but a year
after a sign, a fraction and a gap take all that they find. So a text is read back by its layout if
each piece ends where the next begins (`Layout.readFrom?_write`). The layouts of data files are
written without their gaps; days and moments are read back from their texts in data files
(`Date.ofDataText?_text`, `Moment.ofDataText?_exactText`).
-/
import CellRules.Calendar.Notation
import CellRules.Proofs.Number.Digits

namespace CellRules.Calendar

open Number Text

variable {n width : Nat} {ds cs rest : List Char} {d : Date} {m : Moment} {f : Fields}

/-! ## Days and times -/

theorem daysInMonth_le (year : Int) (month : Nat) : daysInMonth year month ≤ 31 := by
  unfold daysInMonth
  split
  · split <;> omega
  all_goals omega

theorem month_le_of_daysInMonth {year : Int} {month : Nat} (h : 0 < daysInMonth year month) :
    month ≤ 12 := by
  unfold daysInMonth at h
  split at h <;> omega

theorem Date.month_lt (d : Date) : d.month < 100 := by
  obtain ⟨-, -, hfirst, hlast⟩ := d.isDay
  have := month_le_of_daysInMonth (Nat.lt_of_lt_of_le hfirst hlast)
  omega

theorem Date.day_lt (d : Date) : d.day < 100 := by
  obtain ⟨-, -, -, hlast⟩ := d.isDay
  have := daysInMonth_le d.year d.month
  omega

/-! ## Digits in a width -/

theorem padded_digits (width n : Nat) : Digits (padded width n) where
  ne_nil h := (digits_toDigits n).ne_nil (List.append_eq_nil_iff.mp h).2
  isDigit c hc := by
    rcases List.mem_append.mp hc with hzero | hdigit
    · rw [List.eq_of_mem_replicate hzero]
      rfl
    · exact (digits_toDigits n).isDigit c hdigit

@[simp] theorem natOfDigits_padded (width n : Nat) : natOfDigits (padded width n) = n := by
  rw [padded, natOfDigits_zeros, natOfDigits_toDigits]

theorem length_padded (hwidth : 0 < width) (hn : n < tenTo width) :
    (padded width n).length = width := by
  have hlength := (Nat.length_toDigits_le_iff (by decide) hwidth).mpr hn
  simp only [padded, List.length_append, List.length_replicate]
  omega

/-- A reader of digits takes those that were written, if there are as many as it takes or no digit
follows. -/
theorem upTo_append (hds : Digits ds) (hlength : ds.length ≤ width)
    (hrest : ds.length = width ∨ Stops Char.isDigit rest) :
    upTo width (ds ++ rest) = some (natOfDigits ds, rest) := by
  have htake : ((ds ++ rest).take width).takeWhile Char.isDigit = ds := by
    rw [List.take_append, List.take_of_length_le hlength]
    refine takeWhile_of_stops hds.isDigit ?_
    rcases hrest with rfl | hrest
    · rw [Nat.sub_self, List.take_zero]
      exact stops_nil
    · cases rest with
      | nil => simp
      | cons c rest =>
        cases width - ds.length with
        | zero => simp
        | succ k => exact stops_cons.mpr (stops_cons.mp hrest)
  simp [upTo, htake, hds.ne_nil]

theorem allDigits_append (hds : Digits ds) (hrest : Stops Char.isDigit rest) :
    allDigits (ds ++ rest) = some (natOfDigits ds, rest) :=
  upTo_append hds (by simp) (.inr hrest)

theorem not_space_of_digit {c : Char} (hc : c.isDigit = true) : isSpace c = false := by
  have hrange : 0x30 ≤ c.toNat ∧ c.toNat ≤ 0x39 := by
    simpa [Char.isDigit, UInt32.le_iff_toNat_le] using hc
  simp [isSpace]
  omega

/-- No white space is passed over before digits. -/
theorem dropWhile_isSpace_digits (hds : Digits ds) :
    (ds ++ rest).dropWhile isSpace = ds ++ rest := by
  obtain ⟨c, tail, rfl, hc⟩ := hds.exists_cons
  simp [not_space_of_digit hc]

theorem twoDigits_padded (hn : n < 100) (rest : List Char) :
    twoDigits (padded 2 n ++ rest) = some (n, rest) := by
  have hlength := length_padded (by decide : 0 < 2) hn
  rw [twoDigits, dropWhile_isSpace_digits (padded_digits 2 n),
    upTo_append (padded_digits 2 n) (by omega) (.inl hlength), natOfDigits_padded]

/-! ## Years and fractions -/

theorem readYear_digits (hds : Digits ds) (rest : List Char) :
    readYear (ds ++ rest) = (upTo 4 (ds ++ rest)).map fun (n, rest) => ((n : Int), rest) := by
  rw [readYear, dropWhile_isSpace_digits hds]
  obtain ⟨c, tail, rfl, hc⟩ := hds.exists_cons
  split
  case h_3 => rfl
  all_goals
    rename_i heq
    rw [(List.cons.inj heq).1] at hc
    cases hc

/-- A year is read back if no digit follows. -/
theorem readYear_yearForm (year : Int) (hrest : Stops Char.isDigit rest) :
    readYear (yearForm year ++ rest) = some (year, rest) := by
  unfold yearForm
  split
  · rename_i hfour
    simp only [Bool.and_eq_true, decide_eq_true_eq] at hfour
    have hfits : year.toNat < 10000 := by omega
    have hlength : (padded 4 year.toNat).length = 4 := length_padded (by decide) hfits
    rw [readYear_digits (padded_digits 4 _), upTo_append (padded_digits 4 _) (by omega) (.inl hlength),
      natOfDigits_padded]
    simp only [Option.map_some, Int.toNat_of_nonneg hfour.1]
  · have hread := allDigits_append (padded_digits 4 year.natAbs) hrest
    rw [natOfDigits_padded] at hread
    by_cases hneg : year < 0
    · have hback : -(year.natAbs : Int) = year := by omega
      rw [if_pos hneg]
      show (allDigits (padded 4 year.natAbs ++ rest)).map _ = _
      simp only [hread, Option.map_some, hback]
    · have hback : (year.natAbs : Int) = year := by omega
      rw [if_neg hneg]
      show (allDigits (padded 4 year.natAbs ++ rest)).map _ = _
      simp only [hread, Option.map_some, hback]

theorem nanoOfDigits_padded (hwidth : width ≤ 9) (hpos : 0 < width) (hn : n < tenTo width) :
    nanoOfDigits (padded width n) = n * tenTo (9 - width) := by
  have hlength := length_padded hpos hn
  rw [nanoOfDigits, List.take_append, List.take_of_length_le (by omega), hlength,
    List.take_replicate, Nat.min_eq_left (by omega), natOfDigits_eq, Nat.ofDigitChars_append,
    Nat.ofDigitChars_replicate_zero, ← natOfDigits_eq, natOfDigits_padded, Nat.mul_comm]
  rfl

/-- A fraction is read back if neither a point nor a digit follows. -/
theorem readFraction_fractionForm (hn : n < nanosPerSecond) (hpoint : Stops (· == '.') rest)
    (hrest : Stops Char.isDigit rest) :
    readFraction (fractionForm n ++ rest) = some (n, rest) := by
  have hbound : n < 1000000000 := hn
  have hdigits {width value : Nat} (hwidth : width ≤ 9) (hpos : 0 < width)
      (hvalue : value < tenTo width) (hscale : value * tenTo (9 - width) = n) :
      readFraction ('.' :: padded width value ++ rest) = some (n, rest) := by
    have hds := padded_digits width value
    simp [readFraction, spanDigits_append hds.isDigit hrest, hds.ne_nil,
      nanoOfDigits_padded hwidth hpos hvalue, hscale]
  unfold fractionForm
  split_ifs with hzero hmillis hmicros
  · rw [eq_of_beq hzero, List.nil_append]
    unfold readFraction
    split
    · cases stops_cons.mp hpoint
    · rfl
  · have hwhole := eq_of_beq hmillis
    have hvalue : n / 1000000 < 1000 := by omega
    have hscale : n / 1000000 * 1000000 = n := by omega
    exact hdigits (by decide) (by decide) hvalue hscale
  · have hwhole := eq_of_beq hmicros
    have hvalue : n / 1000 < 1000000 := by omega
    have hscale : n / 1000 * 1000 = n := by omega
    exact hdigits (by decide) (by decide) hvalue hscale
  · exact hdigits (by decide) (by decide) hbound (Nat.mul_one n)

/-! ## Pieces -/

/-- What follows does not belong to the piece. -/
def Piece.Ends (rest : List Char) : Piece → Prop
  | .year => Stops Char.isDigit rest
  | .fraction => Stops (· == '.') rest ∧ Stops Char.isDigit rest
  | .gap => Stops isSpace rest
  | _ => True

/-- Notes the number that a piece shows of a moment. -/
def Piece.note (m : Moment) (f : Fields) : Piece → Fields
  | .year => { f with year := m.date.year }
  | .month => { f with month := m.date.month }
  | .day => { f with day := m.date.day }
  | .hour => { f with hour := m.hour }
  | .minute => { f with minute := m.minute }
  | .second => { f with second := m.second }
  | .fraction => { f with nano := m.nano }
  | .gap | .mark _ => f

/-- A piece is read as it was written. -/
theorem Piece.read?_write {piece : Piece} (m : Moment) (f : Fields) (hends : piece.Ends rest) :
    piece.read? f (piece.write m ++ rest) = some (piece.note m f, rest) := by
  obtain ⟨hhour, hminute, hsecond, hnano⟩ := m.isTime
  cases piece with
  | year => rw [read?, write, readYear_yearForm _ hends]; rfl
  | month => rw [read?, write, twoDigits_padded m.date.month_lt]; rfl
  | day => rw [read?, write, twoDigits_padded m.date.day_lt]; rfl
  | hour => rw [read?, write, twoDigits_padded (by omega)]; rfl
  | minute => rw [read?, write, twoDigits_padded (by omega)]; rfl
  | second => rw [read?, write, twoDigits_padded (by omega)]; rfl
  | fraction => rw [read?, write, readFraction_fractionForm hnano hends.1 hends.2]; rfl
  | gap => rw [read?, write, List.nil_append, hends.dropWhile_eq]; rfl
  | mark c => simp [read?, write, note]

/-- Each piece ends where the next begins. -/
def Layout.Parted (m : Moment) (rest : List Char) : Layout → Prop
  | [] => True
  | piece :: layout =>
    piece.Ends (layout.flatMap (Piece.write m) ++ rest) ∧ Layout.Parted m rest layout

/-- A layout whose pieces are parted is read as it was written. -/
theorem Layout.readFrom?_write {layout : Layout} (f : Fields) (h : layout.Parted m rest) :
    layout.readFrom? f (layout.flatMap (Piece.write m) ++ rest)
      = some (layout.foldl (Piece.note m) f, rest) := by
  induction layout generalizing f with
  | nil => rfl
  | cons piece layout ih =>
    obtain ⟨hends, hparted⟩ := h
    rw [List.flatMap_cons, List.append_assoc, readFrom?, Piece.read?_write m f hends]
    exact ih _ hparted

theorem Layout.read?_write {layout : Layout} (h : layout.Parted m []) :
    layout.read? (layout.flatMap (Piece.write m)) = some (layout.foldl (Piece.note m) {}) := by
  have hread := readFrom?_write {} h
  rw [List.append_nil] at hread
  simp [read?, hread]

/-! ## Data files -/

/-- A day is read back from its text in data files. -/
theorem Date.ofDataText?_text (d : Date) : Date.ofDataText? d.text = some d := by
  have hparted : looseDayPieces.Parted d.midnight [] := by
    simp [looseDayPieces, Layout.Parted, Piece.Ends, Piece.write]
    decide
  have hwrite : d.text.toList = looseDayPieces.flatMap (Piece.write d.midnight) :=
    String.toList_ofList
  rw [ofDataText?, hwrite, Layout.read?_write hparted]
  exact Date.ofParts?_self d

/-- A moment is read back from its text in data files. -/
theorem Moment.ofDataText?_exactText (m : Moment) : Moment.ofDataText? m.exactText = some m := by
  have hparted : looseMomentPieces.Parted m [] := by
    simp [looseMomentPieces, looseDayPieces, Layout.Parted, Piece.Ends, Piece.write]
    decide
  have hwrite : m.exactText.toList = looseMomentPieces.flatMap (Piece.write m) :=
    String.toList_ofList
  rw [ofDataText?, hwrite, Layout.read?_write hparted]
  show (Date.ofParts? m.date.year m.date.month m.date.day).bind _ = _
  rw [Date.ofParts?_self]
  exact Moment.ofParts?_self m

end CellRules.Calendar
