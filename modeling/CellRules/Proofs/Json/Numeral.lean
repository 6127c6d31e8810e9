/-
CellRules.Proofs.Json.Numeral — which numerals are read.

The reader of a numeral takes its parts one by one. Each part that it takes is of the form that the
notation gives to it, and a text of this form is taken whole if nothing follows that could belong to
it (`Follows`). So the numerals that are read are those of the notation, `Numeral`. Among them are
the decimals of all integers, which are read back as numbers (`int64?_int`, `nat64?_nat`).
-/
import CellRules.Json.Decode
import CellRules.Json.Reader
import CellRules.Proofs.Number.Digits

namespace CellRules.Json.Grammar

open Number

variable {cs ds whole fraction power numeral rest : List Char}

/-! ## The form of a numeral -/

/-- A zero, or digits that do not start with one. -/
inductive Whole : List Char → Prop
  | zero : Whole ['0']
  | digits {ds : List Char} (h : Digits ds) (hhead : ds.head? ≠ some '0') : Whole ds

/-- Nothing, or a point with digits. -/
inductive Fraction : List Char → Prop
  | absent : Fraction []
  | digits {ds : List Char} (h : Digits ds) : Fraction ('.' :: ds)

/-- Nothing, or the mark of a power of ten with digits, a sign before them or not. -/
inductive Power : List Char → Prop
  | absent : Power []
  | unsigned {mark : Char} {ds : List Char} (hmark : mark = 'e' ∨ mark = 'E') (h : Digits ds) :
      Power (mark :: ds)
  | signed {mark sign : Char} {ds : List Char} (hmark : mark = 'e' ∨ mark = 'E')
      (hsign : sign = '+' ∨ sign = '-') (h : Digits ds) : Power (mark :: sign :: ds)

/-- The three parts of a numeral without its sign. -/
inductive Unsigned : List Char → Prop
  | parts {whole fraction power : List Char} (hwhole : Whole whole) (hfraction : Fraction fraction)
      (hpower : Power power) : Unsigned (whole ++ fraction ++ power)

/-- A numeral of the notation. -/
inductive Numeral : List Char → Prop
  | positive {cs : List Char} (h : Unsigned cs) : Numeral cs
  | negative {cs : List Char} (h : Unsigned cs) : Numeral ('-' :: cs)

/-- The character may belong to a numeral that has begun. -/
def goesOn (c : Char) : Bool := c.isDigit || c == '.' || c == 'e' || c == 'E'

/-- What follows a numeral does not belong to it. -/
abbrev Follows (rest : List Char) : Prop := Stops goesOn rest

theorem Follows.digits (h : Follows rest) : Stops Char.isDigit rest :=
  h.mono fun c hc => by
    simp only [goesOn, Bool.or_eq_false_iff] at hc
    exact hc.1.1.1

theorem Follows.point (h : Follows rest) : Stops (· == '.') rest :=
  h.mono fun c hc => by
    simp only [goesOn, Bool.or_eq_false_iff] at hc
    exact hc.1.1.2

/-! ## Digits -/

theorem someDigits?_append (hds : Digits ds) (hrest : Stops Char.isDigit rest) :
    someDigits? (ds ++ rest) = some (ds, rest) := by
  rw [someDigits?, takeWhile_of_stops hds.isDigit hrest, dropWhile_of_stops hds.isDigit hrest]
  cases ds with
  | nil => exact absurd rfl hds.ne_nil
  | cons c ds => rfl

theorem digits_of_someDigits? (h : someDigits? cs = some (ds, rest)) :
    Digits ds ∧ cs = ds ++ rest := by
  unfold someDigits? at h
  split at h
  · cases h
  · rename_i hne
    obtain ⟨rfl, rfl⟩ := Prod.mk.inj (Option.some.inj h)
    exact ⟨⟨hne, fun c => List.mem_takeWhile_imp⟩, List.takeWhile_append_dropWhile.symm⟩

/-! ## The parts -/

theorem wholePart?_append (hwhole : Whole whole) (hrest : Stops Char.isDigit rest) :
    wholePart? (whole ++ rest) = some (whole, rest) := by
  cases hwhole with
  | zero =>
    cases rest with
    | nil => rfl
    | cons c rest => simp [wholePart?, stops_cons.mp hrest]
  | digits h hhead =>
    rw [← someDigits?_append h hrest]
    obtain ⟨c, tail, rfl, -⟩ := h.exists_cons
    have hc : c ≠ '0' := by simpa using hhead
    unfold wholePart?
    split
    · rename_i heq
      exact absurd (List.cons.inj heq).1 hc
    · rfl

theorem whole_of_wholePart? (h : wholePart? cs = some (whole, rest)) :
    Whole whole ∧ cs = whole ++ rest := by
  unfold wholePart? at h
  split at h
  · split at h
    · split at h
      · cases h
      · obtain ⟨rfl, rfl⟩ := Prod.mk.inj (Option.some.inj h)
        exact ⟨.zero, rfl⟩
    · obtain ⟨rfl, rfl⟩ := Prod.mk.inj (Option.some.inj h)
      exact ⟨.zero, rfl⟩
  · rename_i hhead
    obtain ⟨hdigits, rfl⟩ := digits_of_someDigits? h
    refine ⟨.digits hdigits fun hzero => ?_, rfl⟩
    obtain ⟨c, tail, rfl, -⟩ := hdigits.exists_cons
    obtain rfl : c = '0' := by simpa using hzero
    exact hhead _ rfl

theorem fractionPart?_append (hfraction : Fraction fraction) (hrest : Stops Char.isDigit rest)
    (hpoint : Stops (· == '.') rest) :
    fractionPart? (fraction ++ rest) = some (fraction, rest) := by
  cases hfraction with
  | absent =>
    unfold fractionPart?
    split
    · rename_i cs heq
      rw [List.nil_append] at heq
      rw [heq] at hpoint
      cases stops_cons.mp hpoint
    · rfl
  | digits h =>
    show (someDigits? (_ ++ rest)).map _ = _
    rw [someDigits?_append h hrest]
    rfl

theorem fraction_of_fractionPart? (h : fractionPart? cs = some (fraction, rest)) :
    Fraction fraction ∧ cs = fraction ++ rest := by
  unfold fractionPart? at h
  split at h
  · obtain ⟨⟨ds, tail⟩, hdigits, heq⟩ := Option.map_eq_some_iff.mp h
    obtain ⟨rfl, rfl⟩ := Prod.mk.inj heq
    obtain ⟨hds, rfl⟩ := digits_of_someDigits? hdigits
    exact ⟨.digits hds, rfl⟩
  · obtain ⟨rfl, rfl⟩ := Prod.mk.inj (Option.some.inj h)
    exact ⟨.absent, rfl⟩

theorem powerPart?_append (hpower : Power power) (hrest : Follows rest) :
    powerPart? (power ++ rest) = some (power, rest) := by
  have hdigits := hrest.digits
  cases hpower with
  | absent =>
    cases rest with
    | nil => rfl
    | cons c rest =>
      have hc := stops_cons.mp hrest
      simp only [goesOn, Bool.or_eq_false_iff] at hc
      simp [powerPart?, hc.1.2, hc.2]
  | unsigned hmark h =>
    have hread := someDigits?_append h hdigits
    obtain ⟨c, tail, rfl, hc⟩ := h.exists_cons
    have hplus : c ≠ '+' := by rintro rfl; cases hc
    have hminus : c ≠ '-' := by rintro rfl; cases hc
    rcases hmark with rfl | rfl <;> simp_all [powerPart?]
  | signed hmark hsign h =>
    have hread := someDigits?_append h hdigits
    rcases hmark with rfl | rfl <;> rcases hsign with rfl | rfl <;> simp [powerPart?, hread]

theorem power_of_powerPart? (h : powerPart? cs = some (power, rest)) :
    Power power ∧ cs = power ++ rest := by
  unfold powerPart? at h
  split at h
  · split at h
    · rename_i hmark
      have hmark' := hmark
      simp only [Bool.or_eq_true, beq_iff_eq] at hmark
      split at h
      all_goals
        obtain ⟨⟨ds, tail⟩, hdigits, heq⟩ := Option.map_eq_some_iff.mp h
        obtain ⟨rfl, rfl⟩ := Prod.mk.inj heq
        obtain ⟨hds, rfl⟩ := digits_of_someDigits? hdigits
      · exact ⟨.signed hmark (.inl rfl) hds, rfl⟩
      · exact ⟨.signed hmark (.inr rfl) hds, rfl⟩
      · exact ⟨.unsigned hmark hds, rfl⟩
    · obtain ⟨rfl, rfl⟩ := Prod.mk.inj (Option.some.inj h)
      exact ⟨.absent, rfl⟩
  · obtain ⟨rfl, rfl⟩ := Prod.mk.inj (Option.some.inj h)
    exact ⟨.absent, rfl⟩

/-! ## The whole -/

/-- A power of ten, or what follows, ends the digits before it. -/
theorem stops_power (hpower : Power power) (hrest : Follows rest) :
    Stops Char.isDigit (power ++ rest) ∧ Stops (· == '.') (power ++ rest) := by
  cases hpower with
  | absent => exact ⟨hrest.digits, hrest.point⟩
  | unsigned hmark | signed hmark =>
    rcases hmark with rfl | rfl <;> exact ⟨stops_cons.mpr rfl, stops_cons.mpr rfl⟩

theorem stops_fraction (hfraction : Fraction fraction) (hrest : Stops Char.isDigit rest) :
    Stops Char.isDigit (fraction ++ rest) := by
  cases hfraction with
  | absent => exact hrest
  | digits => exact stops_cons.mpr rfl

theorem unsigned?_append (hnumeral : Unsigned numeral) (hrest : Follows rest) :
    unsigned? (numeral ++ rest) = some (numeral, rest) := by
  obtain ⟨hwhole, hfraction, hpower⟩ := hnumeral
  obtain ⟨hdigits, hpoint⟩ := stops_power hpower hrest
  simp only [unsigned?, List.append_assoc, wholePart?_append hwhole (stops_fraction hfraction hdigits),
    fractionPart?_append hfraction hdigits hpoint, powerPart?_append hpower hrest,
    Option.bind_eq_bind, Option.bind_some]

theorem unsigned_of_unsigned? (h : unsigned? cs = some (numeral, rest)) :
    Unsigned numeral ∧ cs = numeral ++ rest := by
  simp only [unsigned?, Option.bind_eq_bind, Option.bind_eq_some_iff] at h
  obtain ⟨⟨whole, _⟩, hw, ⟨fraction, _⟩, hf, ⟨power, _⟩, hp, heq⟩ := h
  obtain ⟨rfl, rfl⟩ := Prod.mk.inj (Option.some.inj heq)
  obtain ⟨hwhole, rfl⟩ := whole_of_wholePart? hw
  obtain ⟨hfraction, rfl⟩ := fraction_of_fractionPart? hf
  obtain ⟨hpower, rfl⟩ := power_of_powerPart? hp
  exact ⟨.parts hwhole hfraction hpower, by simp⟩

theorem Unsigned.exists_cons (h : Unsigned numeral) :
    ∃ c tail, numeral = c :: tail ∧ c.isDigit = true := by
  obtain ⟨hwhole, -, -⟩ := h
  cases hwhole with
  | zero => exact ⟨'0', _, rfl, rfl⟩
  | digits h =>
    obtain ⟨c, tail, rfl, hc⟩ := h.exists_cons
    exact ⟨c, _, rfl, hc⟩

theorem Numeral.exists_cons (h : Numeral numeral) :
    ∃ c tail, numeral = c :: tail ∧ (c.isDigit = true ∨ c = '-') := by
  cases h with
  | positive h =>
    obtain ⟨c, tail, heq, hc⟩ := h.exists_cons
    exact ⟨c, tail, heq, .inl hc⟩
  | negative => exact ⟨_, _, rfl, .inr rfl⟩

/-- A numeral is read whole if nothing follows that could belong to it. -/
theorem numeral?_append (hnumeral : Numeral numeral) (hrest : Follows rest) :
    numeral? (numeral ++ rest) = some (numeral, rest) := by
  cases hnumeral with
  | positive h =>
    rw [← unsigned?_append h hrest]
    obtain ⟨c, tail, rfl, hc⟩ := h.exists_cons
    unfold numeral?
    split
    · rename_i heq
      rw [(List.cons.inj heq).1] at hc
      cases hc
    · rfl
  | negative h =>
    show (unsigned? (_ ++ rest)).map _ = _
    rw [unsigned?_append h hrest]
    rfl

/-- What is read as a numeral is one. -/
theorem numeral_of_numeral? (h : numeral? cs = some (numeral, rest)) :
    Numeral numeral ∧ cs = numeral ++ rest := by
  unfold numeral? at h
  split at h
  · obtain ⟨⟨positive, tail⟩, hread, heq⟩ := Option.map_eq_some_iff.mp h
    obtain ⟨rfl, rfl⟩ := Prod.mk.inj heq
    obtain ⟨hunsigned, rfl⟩ := unsigned_of_unsigned? hread
    exact ⟨.negative hunsigned, rfl⟩
  · obtain ⟨hunsigned, rfl⟩ := unsigned_of_unsigned? h
    exact ⟨.positive hunsigned, rfl⟩

end CellRules.Json.Grammar

namespace CellRules.Json

open Grammar Number

/-! ## Decimals -/

/-- The digits of an integer, after a minus or not. -/
theorem toList_toString_int (i : Int) :
    (toString i).toList = (if i < 0 then ['-'] else []) ++ Nat.toDigits 10 i.natAbs := by
  rw [Int.toString_eq_repr, Int.repr_eq_if]
  split
  · rename_i h
    have habs : i.toNat = i.natAbs := by omega
    rw [if_neg (by omega), Nat.toList_repr, List.nil_append, habs]
  · rename_i h
    have habs : (-i).toNat = i.natAbs := by omega
    rw [if_pos (by omega), String.toList_append, Nat.toList_repr, habs]
    rfl

theorem unsigned_toDigits (n : Nat) : Unsigned (Nat.toDigits 10 n) := by
  have hwhole : Whole (Nat.toDigits 10 n) := by
    by_cases h : n = 0
    · rw [h, Nat.toDigits_zero]
      exact .zero
    · exact .digits (digits_toDigits n) (head?_toDigits h)
  have h := Unsigned.parts hwhole .absent .absent
  rwa [List.append_nil, List.append_nil] at h

/-- The decimal of an integer is a numeral. -/
theorem numeral_int (i : Int) : Numeral (toString i).toList := by
  rw [toList_toString_int]
  split
  · exact .negative (unsigned_toDigits _)
  · exact .positive (unsigned_toDigits _)

theorem splitNumeral_toDigits (n : Nat) :
    splitNumeral (Nat.toDigits 10 n) = (Nat.toDigits 10 n, [], 0, true) := by
  have hspan := spanDigits_append (digits_toDigits n).isDigit (stops_nil : Stops Char.isDigit [])
  rw [List.append_nil] at hspan
  simp [splitNumeral, hspan, exponent?]

theorem spanSign_toDigits (n : Nat) : spanSign (Nat.toDigits 10 n) = (false, Nat.toDigits 10 n) := by
  obtain ⟨c, tail, heq, hc⟩ := (digits_toDigits n).exists_cons
  rw [heq]
  unfold spanSign
  split
  · rename_i h
    rw [(List.cons.inj h).1] at hc
    cases hc
  · rename_i h
    rw [(List.cons.inj h).1] at hc
    cases hc
  · rfl

/-- The decimal of an integer of sixty-four bits, signed or not, stands for it. -/
theorem quantity?_int {i : Int} (hlow : -(twoTo 63 : Int) ≤ i) (hhigh : i < twoTo 64) :
    quantity? (toString i) = some (.whole i) := by
  rw [quantity?, toList_toString_int]
  by_cases hneg : i < 0
  · simp only [hneg, if_true, List.cons_append, List.nil_append, spanSign, splitNumeral_toDigits,
      natOfDigits_toDigits]
    have hbound : (i.natAbs : Int) ≤ twoTo 63 := by omega
    have hpos : (0 : Int) < i.natAbs := by omega
    have hback : -(i.natAbs : Int) = i := by omega
    simp only [hbound, hpos, hback, Bool.not_true, Bool.and_false, Bool.false_and, Bool.and_self,
      Bool.false_eq_true, decide_true, if_false, if_true]
  · simp only [hneg, if_false, List.nil_append, spanSign_toDigits, splitNumeral_toDigits,
      natOfDigits_toDigits]
    have hback : (i.natAbs : Int) = i := by omega
    simp only [hback, hhigh, Bool.not_false, Bool.and_self, decide_true, if_true]

theorem intWithin?_int {low high i : Int} (hlow : -(twoTo 63 : Int) ≤ i) (hhigh : i < twoTo 64)
    (hmin : low ≤ i) (hmax : i ≤ high) : (Json.int i).intWithin? low high = some i := by
  simp only [Json.int, intWithin?, quantity?_int hlow hhigh]
  simp [hmin, hmax]

/-- An integer of sixty-four bits is read back from its decimal. -/
theorem int64?_int {i : Int} (hlow : -(twoTo 63 : Int) ≤ i) (hhigh : i < twoTo 63) :
    (Json.int i).int64? = some i := by
  have hmore : (twoTo 63 : Int) ≤ twoTo 64 := by decide
  exact intWithin?_int hlow (by omega) hlow (by omega)

/-- A natural of sixty-four bits is read back from its decimal. -/
theorem nat64?_nat {n : Nat} (h : n < twoTo 64) : (Json.nat n).nat64? = some n := by
  have hint : Json.nat n = .int n := rfl
  rw [nat64?, hint, intWithin?_int (by omega) (by omega) (by omega) (by omega)]
  rfl

/-- No greater natural is read. -/
theorem lt_of_nat64? {j : Json} {n : Nat} (h : j.nat64? = some n) : n < twoTo 64 := by
  obtain ⟨i, hi, rfl⟩ := Option.map_eq_some_iff.mp h
  unfold intWithin? at hi
  split at hi
  · split at hi
    · split at hi
      · rename_i hbounds
        obtain rfl := Option.some.inj hi
        simp only [Bool.and_eq_true, decide_eq_true_eq] at hbounds
        omega
      · cases hi
    · cases hi
  · cases hi

end CellRules.Json
