/-
CellRules.Proofs.Text.Lower — lower case of a part of a text.

All characters but the capital sigma have the same lower case wherever they stand. A sigma has its
final form where it ends a word, and whether it does may be up to characters far away: those that
are case-ignorable are looked through. So a part of a text need not have in lower case the form that
it has alone (`lowerBetween_eq_iff`); it has if no sigma in it ends a word there and not alone, or
alone and not there (`Bends`). Just the parts with a sigma that their edges leave open (`Loose`) can
come to stand where one does, and each of them does between some neighbours
(`exists_not_contains_lower`).
-/
import CellRules.Text.Lower
import CellRules.Text.Substitute
import Mathlib.Data.List.Infix
import Mathlib.Data.List.TakeWhile

namespace CellRules.Text

variable {before after before₁ before₂ after₁ after₂ cs xs ys : List Char} {c : Char}
  {text fragment : String}

/-! ## Occurrences -/

theorem occursIn_iff {fragment : List Char} : occursIn fragment cs = true ↔ fragment <:+: cs := by
  induction cs with
  | nil => simp [occursIn]
  | cons c cs ih =>
    rw [occursIn, Bool.or_eq_true, ih, List.isPrefixOf_iff_prefix, List.infix_cons_iff]

theorem contains_iff : contains text fragment = true ↔
    ∃ before after, text.toList = before ++ fragment.toList ++ after := by
  rw [contains, occursIn_iff]
  exact exists₂_congr fun _ _ => eq_comm

/-! ## Words -/

/-- All characters are case-ignorable. -/
def Ignored (cs : List Char) : Prop := ∀ c ∈ cs, inSpans caseIgnorableSpans c = true

instance : Decidable (Ignored cs) := decidable_of_iff _ List.all_eq_true

/-- A sigma ends a word between these characters: a cased letter comes before it and none after it.
Those before it stand nearest first. -/
def endsWord (before after : List Char) : Bool := nextIsCased before && !nextIsCased after

theorem nextIsCased_append_of_ignored (h : Ignored xs) :
    nextIsCased (xs ++ ys) = nextIsCased ys := by
  rw [nextIsCased, List.dropWhile_append_of_pos h, nextIsCased]

theorem nextIsCased_of_ignored (h : Ignored xs) : nextIsCased xs = false := by
  rw [← List.append_nil xs, nextIsCased_append_of_ignored h]
  rfl

/-- What comes behind a character that is not ignored does not count. -/
theorem nextIsCased_append_of_not_ignored (h : ¬ Ignored xs) :
    nextIsCased (xs ++ ys) = nextIsCased xs := by
  have hrest : xs.dropWhile (inSpans caseIgnorableSpans) ≠ [] := by
    rwa [ne_eq, List.dropWhile_eq_nil_iff]
  rw [nextIsCased, nextIsCased, List.dropWhile_append, if_neg (by simpa using hrest)]
  cases hdrop : xs.dropWhile (inSpans caseIgnorableSpans) with
  | nil => exact absurd hdrop hrest
  | cons c cs => rfl

/-! ## Characters between others -/

/-- Lower case of a character between others. -/
def lowerAt (before : List Char) (c : Char) (after : List Char) : List Char :=
  if c == '\u03A3' then if endsWord before after then ['\u03C2'] else ['\u03C3']
  else if c == '\u0130' then ['i', '\u0307'] else [lowerChar c]

/-- Lower case of characters between others. -/
def lowerBetween (before after : List Char) : List Char → List Char
  | [] => []
  | c :: cs => lowerAt before c (cs ++ after) ++ lowerBetween (c :: before) after cs

theorem lowerFrom_eq (before cs : List Char) : lowerFrom before cs = lowerBetween before [] cs := by
  induction cs generalizing before with
  | nil => rfl
  | cons c cs ih => rw [lowerFrom, lowerBetween, ih, List.append_nil]; rfl

theorem lowerBetween_append (before after xs ys : List Char) :
    lowerBetween before after (xs ++ ys)
      = lowerBetween before (ys ++ after) xs ++ lowerBetween (xs.reverse ++ before) after ys := by
  induction xs generalizing before with
  | nil => rfl
  | cons x xs ih => simp [lowerBetween, ih]

theorem toList_lower (text : String) : (lower text).toList = lowerBetween [] [] text.toList := by
  rw [lower, String.toList_ofList, lowerFrom_eq]

/-- The capital sigmas among some characters: what comes before each, nearest first, and what comes
after it. -/
def sigmas : List Char → List (List Char × List Char)
  | [] => []
  | c :: cs =>
    (if c == '\u03A3' then [([], cs)] else []) ++
      (sigmas cs).map fun (before, after) => (before ++ [c], after)

theorem mem_sigmas_iff :
    (before, after) ∈ sigmas cs ↔ cs = before.reverse ++ '\u03A3' :: after := by
  induction cs generalizing before with
  | nil => simp [sigmas]
  | cons c cs ih =>
    rw [sigmas, List.mem_append, List.mem_map]
    -- The character that comes before a sigma as the farthest is the head, if any comes before it.
    rcases before.eq_nil_or_concat with rfl | ⟨before, d, rfl⟩
    · by_cases hsigma : c = '\u03A3'
      · simpa [hsigma] using eq_comm
      · simp [hsigma]
    · rw [List.concat_eq_append, List.reverse_append, List.reverse_singleton, List.singleton_append,
        List.cons_append, List.cons.injEq, ← ih]
      split <;> simp [and_comm]

/-- Two surroundings give a sigma the same form exactly if it ends a word in both or in neither. -/
theorem lowerAt_eq_iff :
    lowerAt before₁ c after₁ = lowerAt before₂ c after₂ ↔
      (c = '\u03A3' → endsWord before₁ after₁ = endsWord before₂ after₂) := by
  by_cases hsigma : c = '\u03A3'
  · subst hsigma
    cases h₁ : endsWord before₁ after₁ <;> cases h₂ : endsWord before₂ after₂ <;>
      simp [lowerAt, h₁, h₂]
  · simp [lowerAt, hsigma]

/-- A character with two forms is a sigma that ends a word, where it has the second. -/
theorem lowerAt_of_ne
    (hle : c = '\u03A3' → endsWord before₁ after₁ = true → endsWord before₂ after₂ = true)
    (hne : lowerAt before₁ c after₁ ≠ lowerAt before₂ c after₂) :
    lowerAt before₁ c after₁ = ['\u03C3'] ∧ lowerAt before₂ c after₂ = ['\u03C2'] := by
  rw [ne_eq, lowerAt_eq_iff, Classical.not_imp] at hne
  obtain ⟨hsigma, hends⟩ := hne
  have hle := hle hsigma
  cases h₁ : endsWord before₁ after₁ <;> cases h₂ : endsWord before₂ after₂ <;>
    simp_all [lowerAt]

theorem length_lowerAt :
    (lowerAt before₁ c after₁).length = (lowerAt before₂ c after₂).length := by
  simp only [lowerAt]
  split
  · split <;> split <;> rfl
  · rfl

theorem forall_sigmas_cons {P : List Char × List Char → Prop} :
    (∀ place ∈ sigmas (c :: cs), P place) ↔
      (c = '\u03A3' → P ([], cs)) ∧ ∀ place ∈ sigmas cs, P (place.1 ++ [c], place.2) := by
  rw [sigmas, List.forall_mem_append, List.forall_mem_map]
  refine and_congr ?_ Iff.rfl
  by_cases hsigma : c = '\u03A3' <;> simp [hsigma]

/-- Characters have the same lower case between two surroundings exactly if each sigma among them
ends a word in both or in neither. -/
theorem lowerBetween_eq_iff :
    lowerBetween before₁ after₁ cs = lowerBetween before₂ after₂ cs ↔ ∀ place ∈ sigmas cs,
      endsWord (place.1 ++ before₁) (place.2 ++ after₁)
        = endsWord (place.1 ++ before₂) (place.2 ++ after₂) := by
  induction cs generalizing before₁ before₂ with
  | nil => simp [lowerBetween, sigmas]
  | cons c cs ih =>
    rw [forall_sigmas_cons, lowerBetween, lowerBetween]
    simp only [List.append_assoc, List.singleton_append, List.nil_append]
    rw [← ih, ← lowerAt_eq_iff]
    exact ⟨fun h => List.append_inj h length_lowerAt, fun ⟨hhead, htail⟩ => by rw [hhead, htail]⟩

/-! ## Parts that neighbours reach -/

/-- A sigma of the characters ends a word between these others and not alone, or alone and not
between these others. -/
def Bends (before cs after : List Char) : Prop :=
  ∃ place ∈ sigmas cs,
    endsWord (place.1 ++ before) (place.2 ++ after) ≠ endsWord place.1 place.2

instance : Decidable (Bends before cs after) := inferInstanceAs (Decidable (∃ place ∈ sigmas cs, _))

/-- A sigma of the characters is left open by one of their edges. It ends a word, and nothing comes
after it but what is ignored; or nothing comes before it but what is ignored, and no cased letter
comes after it. -/
def Loose (cs : List Char) : Prop :=
  ∃ place ∈ sigmas cs,
    (nextIsCased place.1 = true ∧ Ignored place.2) ∨
      (Ignored place.1 ∧ nextIsCased place.2 = false)

instance : Decidable (Loose cs) := inferInstanceAs (Decidable (∃ place ∈ sigmas cs, _))

/-- Just the characters alone have the lower case that they have between others which do not bend
them. -/
theorem lowerBetween_eq_alone_iff :
    lowerBetween before after cs = lowerBetween [] [] cs ↔ ¬ Bends before cs after := by
  simp [lowerBetween_eq_iff, Bends]

/-- Neighbours only bend a sigma that an edge leaves open. -/
theorem Bends.loose (h : Bends before cs after) : Loose cs := by
  obtain ⟨⟨passed, rest⟩, hplace, hbends⟩ := h
  refine ⟨_, hplace, ?_⟩
  by_cases hpassed : Ignored passed
  · have hopen : nextIsCased (rest ++ after) = false := by
      simp only [endsWord, nextIsCased_of_ignored hpassed] at hbends
      refine Bool.eq_false_iff.mpr fun hcased => hbends ?_
      rw [hcased, Bool.not_true, Bool.and_false, Bool.false_and]
    refine .inr ⟨hpassed, ?_⟩
    by_cases hrest : Ignored rest
    · exact nextIsCased_of_ignored hrest
    · exact (nextIsCased_append_of_not_ignored hrest).symm.trans hopen
  · simp only [endsWord, nextIsCased_append_of_not_ignored hpassed] at hbends
    have hcased : nextIsCased passed = true := by
      by_contra hnot
      rw [Bool.not_eq_true] at hnot
      exact hbends (by rw [hnot]; rfl)
    refine .inl ⟨hcased, ?_⟩
    by_contra hrest
    exact hbends (by rw [nextIsCased_append_of_not_ignored hrest])

theorem nextIsCased_append_letter (xs : List Char) :
    nextIsCased (xs ++ ['a']) = (nextIsCased xs || decide (Ignored xs)) := by
  by_cases h : Ignored xs
  · simp only [nextIsCased_append_of_ignored h, h, decide_true, Bool.or_true]
    decide +kernel
  · simp [nextIsCased_append_of_not_ignored h, h]

/-- A letter behind a sigma that ends a word, or before one that has no letter behind it, bends the
characters. -/
theorem Loose.bends (h : Loose cs) : Bends [] cs ['a'] ∨ Bends ['a'] cs [] := by
  obtain ⟨place, hplace, ⟨hpassed, hrest⟩ | ⟨hpassed, hrest⟩⟩ := h
  · refine .inl ⟨place, hplace, ?_⟩
    simp [endsWord, hpassed, hrest, nextIsCased_append_letter, nextIsCased_of_ignored]
  · refine .inr ⟨place, hplace, ?_⟩
    simp [endsWord, hpassed, hrest, nextIsCased_append_letter, nextIsCased_of_ignored]

/-- Without a capital sigma nothing is left open. -/
theorem not_loose_of_not_mem (h : '\u03A3' ∉ cs) : ¬ Loose cs := by
  rintro ⟨place, hplace, -⟩
  rw [mem_sigmas_iff] at hplace
  exact h (hplace ▸ List.mem_append_cons_self)

/-! ## Lower case and fragments -/

/-- A fragment that neighbours do not bend is in lower case part of the lower case of the text. -/
theorem contains_lower_of_not_bends (htext : text.toList = before ++ fragment.toList ++ after)
    (h : ¬ Bends before.reverse fragment.toList after) :
    contains (lower text) (lower fragment) = true := by
  rw [contains_iff, toList_lower, toList_lower, htext, lowerBetween_append, lowerBetween_append,
    List.append_nil, List.append_nil, lowerBetween_eq_alone_iff.mpr h]
  exact ⟨_, _, rfl⟩

/-- Where fewer sigmas end a word, there are fewer final ones and more of the others. -/
theorem count_lowerBetween
    (h : ∀ place ∈ sigmas cs, endsWord (place.1 ++ before₁) (place.2 ++ after₁) = true →
      endsWord (place.1 ++ before₂) (place.2 ++ after₂) = true) :
    lowerBetween before₁ after₁ cs = lowerBetween before₂ after₂ cs ∨
      (lowerBetween before₁ after₁ cs).count '\u03C2'
          < (lowerBetween before₂ after₂ cs).count '\u03C2' ∧
        (lowerBetween before₂ after₂ cs).count '\u03C3'
          < (lowerBetween before₁ after₁ cs).count '\u03C3' := by
  induction cs generalizing before₁ before₂ with
  | nil => exact .inl rfl
  | cons c cs ih =>
    obtain ⟨hhead, htail⟩ := forall_sigmas_cons.mp h
    simp only [List.append_assoc, List.singleton_append, List.nil_append] at hhead htail
    have hrest := ih htail
    simp only [lowerBetween, List.count_append]
    by_cases hsame : lowerAt before₁ c (cs ++ after₁) = lowerAt before₂ c (cs ++ after₂)
    · rw [hsame]
      exact hrest.imp (congrArg _) fun hcounts => by omega
    · obtain ⟨hfirst, hsecond⟩ := lowerAt_of_ne hhead hsame
      rw [hfirst, hsecond]
      refine .inr ?_
      rcases hrest with hsame | hcounts
      · simp [hsame]
      · simp
        omega

theorem lowerAt_letter : lowerAt before 'a' after = ['a'] := rfl

theorem not_contains_lower (d : Char)
    (h : (lower text).toList.count d < (lower fragment).toList.count d) :
    contains (lower text) (lower fragment) = false := by
  rw [← Bool.not_eq_true, contains, occursIn_iff]
  intro hpart
  exact absurd (hpart.sublist.count_le d) (by omega)

/-- Behind the fragment a letter keeps a sigma from ending a word: the text has fewer final ones. -/
theorem not_contains_lower_before_letter (h : Bends [] fragment.toList ['a']) :
    contains (lower (fragment ++ "a")) (lower fragment) = false := by
  have hfewer : ∀ place ∈ sigmas fragment.toList,
      endsWord (place.1 ++ []) (place.2 ++ ['a']) = true →
        endsWord (place.1 ++ []) (place.2 ++ []) = true := by
    intro place _
    simp only [endsWord, nextIsCased_append_letter, List.append_nil]
    cases nextIsCased place.2 <;> simp +contextual
  rcases count_lowerBetween hfewer with hsame | ⟨hfinal, -⟩
  · exact absurd h (lowerBetween_eq_alone_iff.mp hsame)
  · refine not_contains_lower '\u03C2' ?_
    simpa [toList_lower, lowerBetween_append, lowerBetween, lowerAt_letter] using hfinal

/-- Before the fragment a letter makes a sigma end a word: the text has fewer of the others. -/
theorem not_contains_lower_behind_letter (h : Bends ['a'] fragment.toList []) :
    contains (lower ("a" ++ fragment)) (lower fragment) = false := by
  have hfewer : ∀ place ∈ sigmas fragment.toList,
      endsWord (place.1 ++ []) (place.2 ++ []) = true →
        endsWord (place.1 ++ ['a']) (place.2 ++ []) = true := by
    intro place _
    simp only [endsWord, nextIsCased_append_letter, List.append_nil]
    cases nextIsCased place.1 <;> simp
  rcases count_lowerBetween hfewer with hsame | ⟨-, hothers⟩
  · exact absurd h (lowerBetween_eq_alone_iff.mp hsame.symm)
  · refine not_contains_lower '\u03C3' ?_
    simpa [toList_lower, lowerBetween, lowerAt_letter] using hothers

/-- A fragment with a loose sigma stands in some text whose lower case does not hold that of the
fragment. -/
theorem exists_not_contains_lower (h : Loose fragment.toList) :
    ∃ text, contains text fragment = true ∧ contains (lower text) (lower fragment) = false := by
  rcases h.bends with hbends | hbends
  · refine ⟨fragment ++ "a", ?_, not_contains_lower_before_letter hbends⟩
    exact contains_iff.mpr ⟨[], ['a'], by simp⟩
  · refine ⟨"a" ++ fragment, ?_, not_contains_lower_behind_letter hbends⟩
    exact contains_iff.mpr ⟨['a'], [], by simp⟩

end CellRules.Text
