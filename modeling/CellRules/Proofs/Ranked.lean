/-
CellRules.Proofs.Ranked — lists in the order of a key.

The validators of a rule run by stage and the rules of a column by priority, and those of one rank as
they were added. Sorting keeps the members of each rank in their order (`Ranked.filter_sort`), and a
list in order is known by its members of each rank (`Ranked.eq_of_filter`), so the sorted list is the
only one of that kind.
-/
import Mathlib.Data.List.Sort
import Mathlib.Order.Defs.LinearOrder

namespace CellRules.Ranked

open List

variable {α κ : Type} [LinearOrder κ] {key : α → κ}

theorem key_trans (key : α → κ) (a b c : α) (hab : decide (key a ≤ key b))
    (hbc : decide (key b ≤ key c)) :
    decide (key a ≤ key c) :=
  decide_eq_true ((of_decide_eq_true hab).trans (of_decide_eq_true hbc))

theorem key_total (key : α → κ) (a b : α) : decide (key a ≤ key b) || decide (key b ≤ key a) := by
  simpa using le_total (key a) (key b)

/-- The sorted list is in order. -/
theorem pairwise_sort (l : List α) :
    (l.mergeSort fun a b => key a ≤ key b).Pairwise fun a b => key a ≤ key b := by
  simpa using pairwise_mergeSort (key_trans key) (key_total key) l

/-- Members of one rank stay in their order. -/
theorem filter_sort (l : List α) (k : κ) :
    (l.mergeSort fun a b => key a ≤ key b).filter (key · = k) = l.filter (key · = k) := by
  have hties : (l.filter (key · = k)).Pairwise fun a b => decide (key a ≤ key b) := by
    rw [pairwise_filter]
    refine pairwise_of_forall fun a b ha hb => ?_
    rw [of_decide_eq_true ha, of_decide_eq_true hb]
    exact decide_eq_true le_rfl
  -- the members of the rank are a part of the sorted list, and there are no more of them in it
  have hsub := (sublist_mergeSort (key_trans key) (key_total key) hties filter_sublist).filter
    (key · = k)
  rw [filter_filter] at hsub
  simp only [Bool.and_self] at hsub
  exact (hsub.eq_of_length ((mergeSort_perm l _).filter _).length_eq.symm).symm

/-- A list in order is known by its members of each rank. -/
theorem eq_of_filter {l₁ l₂ : List α} (h₁ : l₁.Pairwise fun a b => key a ≤ key b)
    (h₂ : l₂.Pairwise fun a b => key a ≤ key b)
    (hties : ∀ k, l₁.filter (key · = k) = l₂.filter (key · = k)) : l₁ = l₂ := by
  induction l₁ generalizing l₂ with
  | nil =>
    cases l₂ with
    | nil => rfl
    | cons b l₂ => simpa using hties (key b)
  | cons a l₁ ih =>
    cases l₂ with
    | nil => simpa using hties (key a)
    | cons b l₂ =>
      -- each head has its like in the other list, so neither rank is before the other
      have hle : key a ≤ key b := by
        have hb : b ∈ (a :: l₁).filter (key · = key b) := by simp [hties]
        rcases mem_cons.1 (mem_filter.1 hb).1 with rfl | hb
        · exact le_rfl
        · exact (pairwise_cons.1 h₁).1 b hb
      have hge : key b ≤ key a := by
        have ha : a ∈ (b :: l₂).filter (key · = key a) := by simp [← hties]
        rcases mem_cons.1 (mem_filter.1 ha).1 with rfl | ha
        · exact le_rfl
        · exact (pairwise_cons.1 h₂).1 a ha
      obtain rfl : a = b := by
        have hfirst := hties (key a)
        simp only [filter_cons, le_antisymm hge hle, decide_true, if_true, cons.injEq] at hfirst
        exact hfirst.1
      congr 1
      refine ih h₁.of_cons h₂.of_cons fun k => ?_
      have hrest := hties k
      simp only [filter_cons] at hrest
      split at hrest
      · exact (cons.inj hrest).2
      · exact hrest

end CellRules.Ranked
