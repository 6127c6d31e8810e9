/-
CellRules.Proofs.Check.Phone — what is dialed of a phone number.

Without white space and separators, what is left of an accepted text is a plus, or none, and seven to
fifteen digits (`dialable_of_isPhoneNumber`). They need not be digits that can be dialed: in the
international form the digits after the first may be of any script. So what is left can be dialed
exactly if no digit of another script is in the text (`dialable_iff_no_foreign_digit`), which is so
for every text of the North American form, but not for every text (`foreign_digits_are_accepted`).
-/
import CellRules.Check.Phone
import CellRules.Proofs.Text.Blank
import CellRules.Proofs.Text.Pattern

namespace CellRules.Check

open Text Text.Pattern

/-- The character is neither white space nor one that separates groups of digits. -/
def isDialed (c : Char) : Bool := !(isSpace c || ['-', '.', '(', ')'].contains c)

/-- The text without white space, hyphens, points and parentheses. -/
def stripped (text : String) : List Char := text.toList.filter isDialed

/-- A plus, or none, and seven to fifteen digits of a kind. -/
def Dialable (digit : Char → Bool) (cs : List Char) : Prop :=
  ∃ plus digits, (plus = [] ∨ plus = ['+']) ∧ 7 ≤ digits.length ∧ digits.length ≤ 15 ∧
    (∀ c ∈ digits, digit c = true) ∧ cs = plus ++ digits

variable {c : Char} {cs xs : List Char} {n : Nat} {text : String}

/-! ## Digits -/

theorem exists_span (h : isDecimalDigit c = true) :
    ∃ s ∈ decimalDigitSpans, s.1 ≤ c.toNat ∧ c.toNat ≤ s.2 := by
  rw [isDecimalDigit, Bool.or_eq_true, Bool.and_eq_true] at h
  rcases h with h | ⟨-, h⟩
  · have hrange : 0x30 ≤ c.toNat ∧ c.toNat ≤ 0x39 := by
      simpa [Char.isDigit, UInt32.le_iff_toNat_le] using h
    exact ⟨(0x30, 0x39), by decide, hrange⟩
  · exact inSpans_iff.mp h

/-- No run of digits has white space in it. -/
theorem not_space_of_decimalDigit (h : isDecimalDigit c = true) : isSpace c = false := by
  have hapart : ∀ s ∈ decimalDigitSpans, 0x20 < s.1 ∧ (s.2 < 0x85 ∨ 0xA0 < s.1) ∧
      (s.2 < 0x1680 ∨ 0x1680 < s.1) ∧ (s.2 < 0x2000 ∨ 0x205F < s.1) ∧
      (s.2 < 0x3000 ∨ 0x3000 < s.1) := by decide
  obtain ⟨s, hs, hlow, hhigh⟩ := exists_span h
  have hgaps := hapart s hs
  simp [isSpace]
  omega

theorem isDialed_of_decimalDigit (h : isDecimalDigit c = true) : isDialed c = true := by
  have hmarks : ['-', '.', '(', ')'].all (fun mark => !isDecimalDigit mark) = true := by decide
  have hnot : c ∉ ['-', '.', '(', ')'] := fun hmem => by
    simpa [h] using List.all_eq_true.mp hmarks c hmem
  simp [isDialed, not_space_of_decimalDigit h, hnot]

theorem isDecimalDigit_of_isDigit (h : c.isDigit = true) : isDecimalDigit c = true := by
  simp [isDecimalDigit, h]

/-! ## What is left of the forms -/

theorem filter_maybe (h : (maybe (.char c)).Spells xs) (hc : isDialed c = false) :
    xs.filter isDialed = [] := by
  rcases spells_maybe.mp h with rfl | h
  · rfl
  · rw [spells_char.mp h, List.filter_cons_of_neg (by simp [hc]), List.filter_nil]

theorem filter_separator (h : separator.Spells xs) : xs.filter isDialed = [] := by
  rcases spells_maybe.mp h with rfl | h
  · rfl
  · obtain ⟨c, hc, rfl⟩ := spells_one.mp h
    have hnot : isDialed c = false := by
      rw [isSeparator, Bool.or_eq_true, Bool.or_eq_true, beq_iff_eq, beq_iff_eq] at hc
      rcases hc with (rfl | rfl) | hc
      · rfl
      · rfl
      · simp [isDialed, hc]
    rw [List.filter_cons_of_neg (by simp [hnot]), List.filter_nil]

theorem filter_digits (h : ∀ c ∈ xs, isDecimalDigit c = true) : xs.filter isDialed = xs :=
  List.filter_eq_self.mpr fun c hc => isDialed_of_decimalDigit (h c hc)

/-- Of the country's code the plus and the digit are left. -/
theorem filter_country
    (h : (maybe (.row [.maybe (.char '+'), .char '1', separator])).Spells xs) :
    xs.filter isDialed = [] ∨ xs.filter isDialed = ['1'] ∨ xs.filter isDialed = ['+', '1'] := by
  rcases spells_maybe.mp h with rfl | h
  · exact .inl rfl
  · simp only [spells_row_cons, spells_row_nil, spells_char] at h
    obtain ⟨plus, _, hplus, ⟨_, _, rfl, ⟨gap, _, hgap, rfl, rfl⟩, rfl⟩, rfl⟩ := h
    rw [List.append_nil, List.filter_append, List.filter_append, filter_separator hgap]
    rcases spells_maybe.mp hplus with rfl | hplus
    · exact .inr (.inl rfl)
    · obtain rfl := spells_char.mp hplus
      exact .inr (.inr rfl)

/-- Of a North American number ten digits are left, behind the country's code. -/
theorem dialable_of_northAmerican (h : northAmerican.Spells cs) :
    Dialable Char.isDigit (cs.filter isDialed) := by
  simp only [northAmerican, digits, spells_row_cons, spells_row_nil, spells_times_one] at h
  obtain ⟨country, _, hcountry, ⟨opening, _, hopening, ⟨area, _, ⟨hareaLength, harea⟩,
    ⟨closing, _, hclosing, ⟨gap, _, hgap, ⟨office, _, ⟨hofficeLength, hoffice⟩, ⟨gap', _, hgap',
    ⟨line, _, ⟨hlineLength, hline⟩, rfl, rfl⟩, rfl⟩, rfl⟩, rfl⟩, rfl⟩, rfl⟩, rfl⟩, rfl⟩ := h
  have hdigits : ∀ c ∈ area ++ office ++ line, c.isDigit = true := by
    simp only [List.forall_mem_append]
    exact ⟨⟨harea, hoffice⟩, hline⟩
  have hlength : (area ++ office ++ line).length = 10 := by
    simp only [List.length_append]
    omega
  have hleft : (area ++ office ++ line).filter isDialed = area ++ office ++ line :=
    filter_digits fun c hc => isDecimalDigit_of_isDigit (hdigits c hc)
  -- Nothing is left of parentheses and separators, so the digits come together.
  have hfilter : (country ++ (opening ++ (area ++ (closing ++ (gap ++ (office ++ (gap' ++
      (line ++ []))))))) : List Char).filter isDialed
        = country.filter isDialed ++ (area ++ office ++ line) := by
    rw [← hleft]
    simp only [List.filter_append, filter_maybe hopening rfl, filter_maybe hclosing rfl,
      filter_separator hgap, filter_separator hgap', List.nil_append, List.append_nil,
      List.append_assoc]
  rw [hfilter]
  generalize area ++ office ++ line = digits at hdigits hlength
  rcases filter_country hcountry with hnone | hone | hplus
  · exact ⟨[], digits, .inl rfl, by omega, by omega, hdigits, by rw [hnone]⟩
  · refine ⟨[], '1' :: digits, .inl rfl, ?_, ?_, List.forall_mem_cons.mpr ⟨rfl, hdigits⟩, ?_⟩
    · simp [hlength]
    · simp [hlength]
    · rw [hone]
      rfl
  · refine ⟨['+'], '1' :: digits, .inr rfl, ?_, ?_, List.forall_mem_cons.mpr ⟨rfl, hdigits⟩, ?_⟩
    · simp [hlength]
    · simp [hlength]
    · rw [hplus]
      rfl

/-- An international number is digits of any script behind a plus, and all of it is left. -/
theorem dialable_of_international (h : international.Spells cs) :
    Dialable isDecimalDigit cs ∧ cs.filter isDialed = cs := by
  simp only [international, spells_row_cons, spells_row_nil, spells_maybe, spells_char, spells_one,
    spells_between_one (by decide : 6 ≤ 14)] at h
  obtain ⟨plus, _, hplus, ⟨_, _, ⟨first, hfirst, rfl⟩, ⟨rest, _, ⟨hleast, hmost, hrest⟩, rfl, rfl⟩,
    rfl⟩, rfl⟩ := h
  have hdigits : ∀ c ∈ first :: rest, isDecimalDigit c = true := by
    rw [Bool.and_eq_true] at hfirst
    exact List.forall_mem_cons.mpr ⟨isDecimalDigit_of_isDigit hfirst.1, hrest⟩
  rw [List.append_nil, List.singleton_append]
  refine ⟨⟨plus, first :: rest, hplus, ?_, ?_, hdigits, rfl⟩, ?_⟩
  · rw [List.length_cons]
    omega
  · rw [List.length_cons]
    omega
  · rw [List.filter_append, filter_digits hdigits]
    rcases hplus with rfl | rfl <;> rfl

/-! ## What is left of a text -/

/-- White space at the ends of a text is not left, either. -/
theorem stripped_eq (text : String) :
    stripped text = (trimmed text.toList).filter isDialed := by
  obtain ⟨before, after, hbefore, hafter, htext⟩ := exists_trimmed text.toList
  have hspaces : ∀ {spaces}, Spaces spaces → spaces.filter isDialed = [] := fun hspaces =>
    List.filter_eq_nil_iff.mpr fun c hc => by simp [isDialed, hspaces c hc]
  rw [stripped]
  conv_lhs => rw [htext]
  rw [List.filter_append, List.filter_append, hspaces hbefore, hspaces hafter, List.nil_append,
    List.append_nil]

/-- What is taken out of an international number is not left of the text. -/
theorem filter_filler (cs : List Char) :
    (cs.filter fun c => !isFiller c).filter isDialed = cs.filter isDialed := by
  rw [List.filter_filter]
  refine List.filter_congr fun c _ => ?_
  cases hfiller : isFiller c with
  | false => simp
  | true =>
    simp only [isFiller, Bool.or_eq_true, beq_iff_eq] at hfiller
    rcases hfiller with (((rfl | rfl) | rfl) | rfl) | rfl <;> rfl

/-- What is left of an accepted text is a plus, or none, and seven to fifteen digits. -/
theorem dialable_of_isPhoneNumber (h : isPhoneNumber text = true) :
    Dialable isDecimalDigit (stripped text) := by
  rw [isPhoneNumber, Bool.or_eq_true, fits_iff, fits_iff] at h
  rw [stripped_eq]
  rcases h with h | h
  · obtain ⟨plus, digits, hplus, hleast, hmost, hdigits, heq⟩ := dialable_of_northAmerican h
    exact ⟨plus, digits, hplus, hleast, hmost,
      fun c hc => isDecimalDigit_of_isDigit (hdigits c hc), heq⟩
  · obtain ⟨hdialable, hall⟩ := dialable_of_international h
    rw [← filter_filler, hall]
    exact hdialable

/-- Digits of any script can be dialed exactly if they are ASCII digits. -/
theorem dialable_iff (h : Dialable isDecimalDigit cs) :
    Dialable Char.isDigit cs ↔ ∀ c ∈ cs, isDecimalDigit c = true → c.isDigit = true := by
  constructor
  · rintro ⟨plus, digits, hplus, -, -, hdigits, rfl⟩ c hc hdigit
    rcases List.mem_append.mp hc with hc | hc
    · rcases hplus with rfl | rfl
      · cases hc
      · rw [List.mem_singleton.mp hc] at hdigit
        cases hdigit
    · exact hdigits c hc
  · intro hascii
    obtain ⟨plus, digits, hplus, hleast, hmost, hdigits, rfl⟩ := h
    exact ⟨plus, digits, hplus, hleast, hmost,
      fun c hc => hascii c (List.mem_append_right plus hc) (hdigits c hc), rfl⟩

/-- What is left of an accepted text without white space, hyphens, points and parentheses is a plus,
or none, and seven to fifteen digits. They are ASCII digits exactly if the text has no digits of
another script, which those of the North American form never have. -/
theorem dialable_iff_no_foreign_digit (h : isPhoneNumber text = true) :
    Dialable isDecimalDigit (stripped text) ∧
      (Dialable Char.isDigit (stripped text) ↔
        ∀ c ∈ text.toList, isDecimalDigit c = true → c.isDigit = true) ∧
      (northAmerican.fits (trimmed text.toList) = true → Dialable Char.isDigit (stripped text)) := by
  have hdialable := dialable_of_isPhoneNumber h
  refine ⟨hdialable, ?_, fun hform => ?_⟩
  · rw [dialable_iff hdialable]
    refine forall_congr' fun c => ⟨fun hleft hc hdigit => ?_, fun htext hc hdigit => ?_⟩
    · exact hleft (List.mem_filter.mpr ⟨hc, isDialed_of_decimalDigit hdigit⟩) hdigit
    · exact htext (List.mem_filter.mp hc).1 hdigit
  · rw [stripped_eq]
    exact dialable_of_northAmerican (fits_iff.mp hform)

/-- A number with its country's code and separators. -/
theorem dialable_iff_no_foreign_digit_austin :
    isPhoneNumber " +1 (512).555-0199\t" = true ∧
      Dialable Char.isDigit (stripped " +1 (512).555-0199\t") := by
  have h : isPhoneNumber " +1 (512).555-0199\t" = true := by decide +kernel
  obtain ⟨-, -, hform⟩ := dialable_iff_no_foreign_digit h
  exact ⟨h, hform (by decide +kernel)⟩

/-- A number of the international form whose digits but the first are Arabic-Indic ones. -/
def foreignNumber : String := "+1\u0662\u0663\u0664\u0665\u0666\u0667"

/-- Such a number is accepted, and what is left of it cannot be dialed. -/
theorem foreign_digits_are_accepted :
    isPhoneNumber foreignNumber = true ∧ ¬ Dialable Char.isDigit (stripped foreignNumber) := by
  have h : isPhoneNumber foreignNumber = true := by decide +kernel
  refine ⟨h, fun hdialable => ?_⟩
  have hdigit := (dialable_iff (dialable_of_isPhoneNumber h)).mp hdialable '\u0662'
    (by decide +kernel) (by decide +kernel)
  revert hdigit
  decide

end CellRules.Check
