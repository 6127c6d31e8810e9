/-
CellRules.Proofs.Number.Digits — digits that were written are read again.

A reader of digits takes all that it finds, so it takes those that were written exactly if no digit
follows them. `Stops` says what follows; `Digits` are the digits themselves. The digits of a natural
are its own: they are not more than it needs, and they say what it is (`natOfDigits_toDigits`).
-/
import CellRules.Number.Numeral
import Mathlib.Data.List.TakeWhile

namespace CellRules.Number

variable {kind : Char → Bool} {c : Char} {cs ds rest : List Char} {n : Nat}

/-! ## What follows -/

/-- What follows does not go on with a character of the kind. -/
def Stops (kind : Char → Bool) (rest : List Char) : Prop := ∀ c ∈ rest.head?, kind c = false

@[simp] theorem stops_nil : Stops kind [] := nofun

@[simp] theorem stops_cons : Stops kind (c :: rest) ↔ kind c = false := by
  simp [Stops]

theorem Stops.mono {other : Char → Bool} (h : Stops kind rest)
    (hkind : ∀ c, kind c = false → other c = false) : Stops other rest :=
  fun c hc => hkind c (h c hc)

theorem takeWhile_of_stops (hcs : ∀ c ∈ cs, kind c = true) (hrest : Stops kind rest) :
    (cs ++ rest).takeWhile kind = cs := by
  rw [List.takeWhile_append_of_pos hcs]
  cases rest with
  | nil => simp
  | cons c rest => simp [stops_cons.mp hrest]

theorem Stops.dropWhile_eq (h : Stops kind rest) : rest.dropWhile kind = rest := by
  cases rest with
  | nil => rfl
  | cons c rest => simp [stops_cons.mp h]

theorem dropWhile_of_stops (hcs : ∀ c ∈ cs, kind c = true) (hrest : Stops kind rest) :
    (cs ++ rest).dropWhile kind = rest := by
  rw [List.dropWhile_append_of_pos hcs, hrest.dropWhile_eq]

/-! ## Digits -/

/-- Digits, at least one. -/
structure Digits (ds : List Char) : Prop where
  ne_nil : ds ≠ []
  isDigit : ∀ c ∈ ds, c.isDigit = true

theorem Digits.exists_cons (h : Digits ds) : ∃ c tail, ds = c :: tail ∧ c.isDigit = true := by
  cases ds with
  | nil => exact absurd rfl h.ne_nil
  | cons c tail => exact ⟨c, tail, rfl, h.isDigit c List.mem_cons_self⟩

theorem digits_toDigits (n : Nat) : Digits (Nat.toDigits 10 n) where
  ne_nil := Nat.toDigits_ne_nil
  isDigit _ := Nat.isDigit_of_mem_toDigits (by decide) (by decide)

/-- A number does not start with a zero, unless it is zero. -/
theorem head?_toDigits (hn : n ≠ 0) : (Nat.toDigits 10 n).head? ≠ some '0' := by
  induction n using Nat.strongRecOn with
  | ind n ih =>
    by_cases hlt : n < 10
    · have hdigit : ∀ d < 10, d ≠ 0 → d.digitChar ≠ '0' := by decide
      rw [Nat.toDigits_of_lt_base hlt]
      simpa using hdigit n hlt hn
    · rw [Nat.toDigits_of_base_le (by decide) (by omega), List.head?_append,
        Option.or_of_isSome (by simp [Nat.toDigits_ne_nil])]
      exact ih _ (by omega) (by omega)

theorem spanDigits_append (hds : ∀ c ∈ ds, c.isDigit = true) (hrest : Stops Char.isDigit rest) :
    spanDigits (ds ++ rest) = (ds, rest) := by
  rw [spanDigits, takeWhile_of_stops hds hrest, dropWhile_of_stops hds hrest]

theorem natOfDigits_eq (ds : List Char) : natOfDigits ds = Nat.ofDigitChars 10 ds 0 := rfl

@[simp] theorem natOfDigits_toDigits (n : Nat) : natOfDigits (Nat.toDigits 10 n) = n :=
  Nat.ofDigitChars_ten_toDigits

/-- Zeros in front of digits make no difference. -/
@[simp] theorem natOfDigits_zeros (count : Nat) (ds : List Char) :
    natOfDigits (List.replicate count '0' ++ ds) = natOfDigits ds := by
  rw [natOfDigits_eq, Nat.ofDigitChars_append, Nat.ofDigitChars_replicate_zero, Nat.mul_zero]
  rfl

end CellRules.Number
