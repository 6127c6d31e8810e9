/-
CellRules.Proofs.Calendar.Typed — dates in messages are read as what they are.

What people type is tried as a timestamp, as a moment and as a day, and the first form that fits
wins. A date in a message has no distance from universal time, so it is no timestamp; a day has no
time, so it is no moment; and after the day of a moment stands a letter, so it is none of those with
a gap there. What is left is the form it was written in: days are read back from their texts, and
moments without their fractions (`Moment.ofText?_dateText`, `Moment.ofText?_text`).
-/
import CellRules.Proofs.Calendar.ReadBack
import CellRules.Proofs.Text.Blank

namespace CellRules.Calendar

open Number Text

variable {n width : Nat} {cs rest : List Char} {c : Char} {m : Moment} {f : Fields}

/-! ## White space -/

theorem not_space_of_digits {ds : List Char} (h : Digits ds) : ∀ c ∈ ds, isSpace c = false :=
  fun c hc => not_space_of_digit (h.isDigit c hc)

theorem not_space_yearForm (year : Int) : ∀ c ∈ yearForm year, isSpace c = false := by
  unfold yearForm
  split
  · exact not_space_of_digits (padded_digits 4 _)
  · refine List.forall_mem_cons.mpr ⟨?_, not_space_of_digits (padded_digits 4 _)⟩
    split <;> rfl

theorem not_space_fractionForm (nano : Nat) : ∀ c ∈ fractionForm nano, isSpace c = false := by
  have hpoint : ∀ width value, ∀ c ∈ '.' :: padded width value, isSpace c = false := fun _ _ =>
    List.forall_mem_cons.mpr ⟨rfl, not_space_of_digits (padded_digits _ _)⟩
  unfold fractionForm
  split_ifs
  · nofun
  · exact hpoint 3 _
  · exact hpoint 6 _
  · exact hpoint 9 _

/-- A layout whose marks are not white space is written without any. -/
theorem Layout.not_space_write {layout : Layout}
    (hmarks : ∀ c, .mark c ∈ layout → isSpace c = false) (m : Moment) :
    ∀ c ∈ layout.flatMap (Piece.write m), isSpace c = false := by
  intro c hc
  obtain ⟨piece, hpiece, hc⟩ := List.mem_flatMap.mp hc
  cases piece with
  | year => exact not_space_yearForm _ c hc
  | month | day | hour | minute | second => exact not_space_of_digits (padded_digits 2 _) c hc
  | fraction => exact not_space_fractionForm _ c hc
  | gap => cases hc
  | mark d =>
    rw [List.mem_singleton.mp hc]
    exact hmarks d hpiece

/-! ## Timestamps -/

theorem exactly_padded (hwidth : 0 < width) (hn : n < tenTo width) (rest : List Char) :
    exactly width (padded width n ++ rest) = some (n, rest) := by
  have hlength := length_padded hwidth hn
  have htake : (padded width n ++ rest).take width = padded width n := by
    rw [List.take_append_of_le_length (by omega), List.take_of_length_le (by omega)]
  have hdrop : (padded width n ++ rest).drop width = rest := by
    rw [List.drop_append_of_le_length (by omega), List.drop_of_length_le (by omega),
      List.nil_append]
  have hdigits : (padded width n).all Char.isDigit = true :=
    List.all_eq_true.mpr (padded_digits width n).isDigit
  simp [exactly, htake, hdrop, hlength, hdigits]

/-- A year with a sign is no year of a timestamp. -/
theorem exactly_sign (hc : c.isDigit = false) : exactly (width + 1) (c :: rest) = none := by
  simp [exactly, hc]

/-- The number of a year in a timestamp has no sign; with four digits it is read. -/
theorem exactly_yearForm (year : Int) (rest : List Char) :
    exactly 4 (yearForm year ++ rest) = none ∨
      ∃ n : Nat, exactly 4 (yearForm year ++ rest) = some (n, rest) := by
  unfold yearForm
  split
  · rename_i hfour
    simp only [Bool.and_eq_true, decide_eq_true_eq] at hfour
    have hfits : year.toNat < 10000 := by omega
    exact .inr ⟨year.toNat, exactly_padded (by decide) hfits rest⟩
  · refine .inl (exactly_sign ?_)
    split <;> rfl

theorem bind_of_eq_some {α β : Type} {x : Option α} {a : α} {f : α → Option β} (h : x = some a) :
    (x >>= f) = f a := by
  rw [h]
  rfl

/-- A mark and a number of two digits are read off the front. -/
theorem bind_mark_exactly {α : Type} (hn : n < tenTo 2) (marks rest : List Char)
    (f : Nat × List Char → Option α) :
    (oneOf (c :: marks) (c :: (padded 2 n ++ rest)) >>= fun (_, cs) => exactly 2 cs >>= f)
      = f (n, rest) := by
  have hmark : oneOf (c :: marks) (c :: (padded 2 n ++ rest)) = some (c, padded 2 n ++ rest) :=
    if_pos List.mem_cons_self
  exact (bind_of_eq_some hmark).trans (bind_of_eq_some (exactly_padded (by decide) hn rest))

/-- Neither a day nor a moment in a message is a timestamp: there is nothing behind it. -/
theorem ofTimestamp?_dayPieces (m : Moment) :
    ofTimestamp? (dayPieces.flatMap (Piece.write m)) = none := by
  simp only [dayPieces, List.flatMap_cons, List.flatMap_nil, Piece.write, List.cons_append,
    List.nil_append]
  unfold ofTimestamp?
  rcases exactly_yearForm m.date.year _ with hyear | ⟨n, hyear⟩
  · rw [hyear]
    rfl
  · refine (bind_of_eq_some hyear).trans ?_
    refine (bind_mark_exactly m.date.month_lt ..).trans ?_
    exact bind_mark_exactly m.date.day_lt ..

theorem ofTimestamp?_momentPieces (m : Moment) :
    ofTimestamp? (momentPieces.flatMap (Piece.write m)) = none := by
  obtain ⟨hhour, hminute, hsecond, -⟩ := m.isTime
  simp only [momentPieces, dayPieces, timePieces, List.flatMap_cons, List.flatMap_nil, Piece.write,
    List.cons_append, List.nil_append]
  unfold ofTimestamp?
  rcases exactly_yearForm m.date.year _ with hyear | ⟨n, hyear⟩
  · rw [hyear]
    rfl
  · refine (bind_of_eq_some hyear).trans ?_
    refine (bind_mark_exactly m.date.month_lt ..).trans ?_
    refine (bind_mark_exactly m.date.day_lt ..).trans ?_
    refine (bind_mark_exactly (by omega : m.hour < 100) ..).trans ?_
    refine (bind_mark_exactly (by omega : m.minute < 100) ..).trans ?_
    exact bind_mark_exactly (by omega : m.second < 100) ..

/-! ## Layouts -/

theorem Layout.readFrom?_append (first second : Layout) (f : Fields) (cs : List Char) :
    (first ++ second).readFrom? f cs
      = (first.readFrom? f cs).bind fun (f, rest) => second.readFrom? f rest := by
  induction first generalizing f cs with
  | nil => rfl
  | cons piece first ih =>
    rw [List.cons_append, readFrom?, readFrom?, Option.bind_assoc]
    exact congrArg _ (funext fun _ => ih _ _)

/-- Behind a day hyphens go on as they stand, whatever follows. -/
theorem parted_dayPieces (m : Moment) (rest : List Char) : dayPieces.Parted m rest := by
  simp [dayPieces, Layout.Parted, Piece.Ends, Piece.write]

theorem parted_momentPieces (m : Moment) (rest : List Char) : momentPieces.Parted m rest := by
  simp [momentPieces, dayPieces, timePieces, Layout.Parted, Piece.Ends, Piece.write]

/-- No time is read where there is neither white space nor a digit. -/
theorem readFrom?_gap_time (f : Fields) (hspace : Stops isSpace rest)
    (hdigit : Stops Char.isDigit rest) : Layout.readFrom? f rest (.gap :: timePieces) = none := by
  have hnone : twoDigits rest = none := by
    rw [twoDigits, hspace.dropWhile_eq, upTo]
    cases rest with
    | nil => rfl
    | cons c rest => simp [stops_cons.mp hdigit]
  simp [Layout.readFrom?, timePieces, Piece.read?, hspace.dropWhile_eq, hnone]

/-- A layout that goes on behind the day is not that of the day and what follows if what follows is
not read. -/
theorem read?_dayPieces_append {layout : Layout} (m : Moment)
    (hrest : ∀ f, layout.readFrom? f rest = none) :
    (dayPieces ++ layout).read? (dayPieces.flatMap (Piece.write m) ++ rest) = none := by
  rw [Layout.read?, Layout.readFrom?_append, Layout.readFrom?_write {} (parted_dayPieces m rest)]
  simp [hrest]

/-! ## Reading what people type -/

theorem ofText?_write {layout : Layout} (hmarks : ∀ c, .mark c ∈ layout → isSpace c = false)
    (m : Moment) :
    Moment.ofText? (layout.write m) = ofTyped? (layout.flatMap (Piece.write m)) := by
  rw [Moment.ofText?, Layout.write, String.toList_ofList,
    trimmed_of_bare (.of_forall (Layout.not_space_write hmarks m))]

/-- A day is read back from its text in messages. -/
theorem Moment.ofText?_dateText (d : Date) : Moment.ofText? d.text = some d.midnight := by
  have hmarks : ∀ c, .mark c ∈ dayPieces → isSpace c = false := by
    simp [dayPieces]
    rfl
  -- The moment layouts go on behind the day, where the text ends.
  have hgap : (dayPieces ++ Piece.gap :: timePieces).read?
      (dayPieces.flatMap (Piece.write d.midnight) ++ []) = none :=
    read?_dayPieces_append d.midnight fun f => readFrom?_gap_time f stops_nil stops_nil
  have hletter : (dayPieces ++ Piece.mark 'T' :: timePieces).read?
      (dayPieces.flatMap (Piece.write d.midnight) ++ []) = none :=
    read?_dayPieces_append d.midnight fun _ => rfl
  have hday := Layout.read?_write (parted_dayPieces d.midnight [])
  have hdate : Fields.date? (dayPieces.foldl (Piece.note d.midnight) {}) = some d :=
    Date.ofParts?_self d
  rw [List.append_nil] at hgap hletter
  rw [Date.text, ofText?_write hmarks, ofTyped?, ofTimestamp?_dayPieces, typedMomentLayouts,
    typedDayLayouts, momentPieces, List.append_assoc, List.append_assoc]
  simp [hgap, hletter, hday, hdate]

/-- A moment is read back from its text in messages, without its fraction. -/
theorem Moment.ofText?_text (m : Moment) : Moment.ofText? m.text = some m.wholeSecond := by
  have hmarks : ∀ c, .mark c ∈ momentPieces → isSpace c = false := by
    simp [momentPieces, dayPieces, timePieces]
    decide
  -- The first of the moment layouts has a gap where the text has a letter.
  have hgap : (dayPieces ++ Piece.gap :: timePieces).read?
      (dayPieces.flatMap (Piece.write m) ++ 'T' :: timePieces.flatMap (Piece.write m)) = none :=
    read?_dayPieces_append m fun f =>
      readFrom?_gap_time f (stops_cons.mpr rfl) (stops_cons.mpr rfl)
  have htext : momentPieces.flatMap (Piece.write m)
      = dayPieces.flatMap (Piece.write m) ++ 'T' :: timePieces.flatMap (Piece.write m) := by
    simp [momentPieces, Piece.write]
  have hmoment := Layout.read?_write (parted_momentPieces m [])
  have hwhole : Fields.moment? (momentPieces.foldl (Piece.note m) {}) = some m.wholeSecond := by
    show (Date.ofParts? m.date.year m.date.month m.date.day).bind _ = _
    rw [Date.ofParts?_self]
    exact Moment.ofParts?_self m.wholeSecond
  rw [← htext] at hgap
  rw [Moment.text, ofText?_write hmarks, ofTyped?, ofTimestamp?_momentPieces, typedMomentLayouts,
    List.append_assoc]
  simp [hgap, hmoment, hwhole]

end CellRules.Calendar
