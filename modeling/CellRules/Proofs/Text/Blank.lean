/-
CellRules.Proofs.Text.Blank — white space around a text.

Trimming takes white space off both ends and nothing else (`exists_trimmed`), and a text that has none
at its ends is all that is left of it (`trimmed_padded`). So a form that has no white space at its
ends is that of the trimmed text exactly if the text is one of the form with white space around it
(`padded_iff`).
-/
import CellRules.Text.Blank
import Mathlib.Data.List.DropRight
import Mathlib.Data.List.TakeWhile

namespace CellRules.Text

variable {cs before after : List Char} {form : List Char → Prop}

/-- White space and nothing else. -/
def Spaces (cs : List Char) : Prop := ∀ c ∈ cs, isSpace c = true

/-- The text neither starts nor ends with white space. -/
structure Bare (cs : List Char) : Prop where
  head : ∀ c ∈ cs.head?, isSpace c = false
  last : ∀ c ∈ cs.getLast?, isSpace c = false

/-- A text of a form with white space around it, or none. -/
def Padded (form : List Char → Prop) (cs : List Char) : Prop :=
  ∃ before middle after, Spaces before ∧ Spaces after ∧ form middle ∧
    cs = before ++ middle ++ after

theorem Bare.of_forall (h : ∀ c ∈ cs, isSpace c = false) : Bare cs where
  head c hc := h c (List.mem_of_mem_head? hc)
  last c hc := h c (List.mem_of_getLast? hc)

/-- Nothing but white space is taken off. -/
theorem exists_trimmed (cs : List Char) :
    ∃ before after, Spaces before ∧ Spaces after ∧ cs = before ++ trimmed cs ++ after := by
  refine ⟨cs.takeWhile isSpace, (cs.dropWhile isSpace).rtakeWhile isSpace,
    fun c hc => List.mem_takeWhile_imp hc, fun c hc => List.mem_rtakeWhile_imp hc, ?_⟩
  calc
    cs = cs.takeWhile isSpace ++ cs.dropWhile isSpace := List.takeWhile_append_dropWhile.symm
    _ = cs.takeWhile isSpace ++ (trimmed cs ++ (cs.dropWhile isSpace).rtakeWhile isSpace) := by
      rw [show trimmed cs = (cs.dropWhile isSpace).rdropWhile isSpace from rfl,
        List.rdropWhile_append_rtakeWhile]
    _ = _ := (List.append_assoc ..).symm

/-- White space around a text that has none at its ends is taken off. -/
theorem trimmed_padded (hbefore : Spaces before) (hafter : Spaces after) (h : Bare cs) :
    trimmed (before ++ cs ++ after) = cs := by
  have hfront : (before ++ cs ++ after).dropWhile isSpace = (cs ++ after).dropWhile isSpace := by
    rw [List.append_assoc, List.dropWhile_append_of_pos hbefore]
  rw [trimmed, hfront]
  cases cs with
  | nil =>
    rw [List.nil_append, List.dropWhile_eq_nil_iff.mpr hafter]
    rfl
  | cons c cs =>
    have hhead : isSpace c = false := h.head c rfl
    have hback : ∀ d ∈ after.reverse, isSpace d = true := fun d hd =>
      hafter d (List.mem_reverse.mp hd)
    rw [List.cons_append, List.dropWhile_cons_of_neg (by simp [hhead]), ← List.cons_append,
      List.reverse_append, List.dropWhile_append_of_pos hback]
    change (c :: cs).rdropWhile isSpace = c :: cs
    rw [List.rdropWhile_eq_self_iff]
    intro hne
    simp [h.last _ (List.getLast_mem_getLast? hne)]

theorem trimmed_of_bare (h : Bare cs) : trimmed cs = cs := by
  have hnone : Spaces [] := nofun
  simpa using trimmed_padded hnone hnone h

/-- The trimmed text is of a form without white space at its ends exactly if the text is one of the
form with white space around it. -/
theorem padded_iff (hform : ∀ cs, form cs → Bare cs) : form (trimmed cs) ↔ Padded form cs := by
  constructor
  · intro h
    obtain ⟨before, after, hbefore, hafter, heq⟩ := exists_trimmed cs
    exact ⟨before, trimmed cs, after, hbefore, hafter, h, heq⟩
  · rintro ⟨before, middle, after, hbefore, hafter, h, rfl⟩
    rwa [trimmed_padded hbefore hafter (hform middle h)]

end CellRules.Text
