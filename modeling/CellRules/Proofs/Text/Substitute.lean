/-
CellRules.Proofs.Text.Substitute — marks replaced one after the other, and all at once.

Replacing one mark after the other searches what was put in for the later ones. Replacing all of
them in one pass over the text (`substituteAll`) does not. The two go the same way as long as a mark
that comes up stands only where it stood in the text (`Strays`), and part at the first that does
not, unless its value is the mark itself (`inOrder_eq_substituteAll_iff`).

One step is looked at through the text cut into characters and places of the mark (`Cut`). Spelling
the places as the mark gives the text before the step, and spelling them as its value the text that
the pass makes. The step itself replaces the occurrences of the mark, which are the places and
perhaps more (`Refines`). A mark opens with a character that it does not have again, so occurrences
never overlap.
-/
import CellRules.Text.Substitute
import Mathlib.Data.List.Infix
import Mathlib.Data.List.Pairwise

namespace CellRules.Text

/-! ## Occurrences, and one pass -/

/-- The number of places where the mark stands in the characters. -/
def occurrencesIn (mark : List Char) : List Char → Nat
  | [] => 0
  | c :: cs => (if mark.isPrefixOf (c :: cs) then 1 else 0) + occurrencesIn mark cs

/-- The number of places where the mark stands in the text. -/
def occurrences (mark text : String) : Nat := occurrencesIn mark.toList text.toList

/-- In one pass over the characters, every mark becomes its value; the first `skip` characters
belong to a mark that has been replaced already. -/
def substituteAllFrom (marks : List (List Char × List Char)) (skip : Nat) : List Char → List Char
  | [] => []
  | c :: cs =>
    if skip > 0 then substituteAllFrom marks (skip - 1) cs
    else match marks.find? (·.1.isPrefixOf (c :: cs)) with
      | some (mark, value) => value ++ substituteAllFrom marks (mark.length - 1) cs
      | none => c :: substituteAllFrom marks 0 cs

/-- The characters of a mark and of its value. -/
def characters (pair : String × String) : List Char × List Char := (pair.1.toList, pair.2.toList)

/-- The text with every mark replaced by its value in one pass. -/
def substituteAll (marks : List (String × String)) (text : String) : String :=
  String.ofList (substituteAllFrom (marks.map characters) 0 text.toList)

/-- The text with one mark after the other replaced by its value. -/
def substituteInOrder (marks : List (String × String)) (text : String) : String :=
  marks.foldl (fun text (mark, value) => substitute mark value text) text

/-- A mark begins with a character that it does not have again. -/
def Opens (brace : Char) (mark : List Char) : Prop := ∃ rest, mark = brace :: rest ∧ brace ∉ rest

variable {brace c : Char} {mark value cs rest text : List Char} {skip : Nat}
  {marks : List (List Char × List Char)}

/-- Replacing one mark is a pass with that mark. -/
theorem substituteFrom_eq (mark value : List Char) (skip : Nat) (text : List Char) :
    substituteFrom mark value skip text = substituteAllFrom [(mark, value)] skip text := by
  induction text generalizing skip with
  | nil => rfl
  | cons c cs ih =>
    rw [substituteFrom, substituteAllFrom, List.find?_cons]
    simp only [ih]
    cases mark.isPrefixOf (c :: cs) <;> rfl

theorem substituteAllFrom_skip (marks : List (List Char × List Char)) (skip : Nat)
    (text : List Char) :
    substituteAllFrom marks skip text = substituteAllFrom marks 0 (text.drop skip) := by
  induction text generalizing skip with
  | nil => rw [List.drop_nil]; rfl
  | cons c cs ih =>
    cases skip with
    | zero => rfl
    | succ skip =>
      rw [substituteAllFrom, if_pos (Nat.succ_pos skip), ih, List.drop_succ_cons]
      rfl

/-- Where a mark stands, its value is put in. -/
theorem substituteAllFrom_found (hopens : Opens brace mark)
    (hfound : marks.find? (·.1.isPrefixOf (mark ++ rest)) = some (mark, value)) :
    substituteAllFrom marks 0 (mark ++ rest) = value ++ substituteAllFrom marks 0 rest := by
  obtain ⟨tail, rfl, -⟩ := hopens
  rw [List.cons_append] at hfound ⊢
  rw [substituteAllFrom, if_neg (Nat.lt_irrefl 0), hfound]
  dsimp only
  rw [substituteAllFrom_skip, List.length_cons, Nat.add_sub_cancel, List.drop_left]

/-- Where no mark stands, the character stays. -/
theorem substituteAllFrom_own (hnone : marks.find? (·.1.isPrefixOf (c :: cs)) = none) :
    substituteAllFrom marks 0 (c :: cs) = c :: substituteAllFrom marks 0 cs := by
  rw [substituteAllFrom, if_neg (Nat.lt_irrefl 0), hnone]

theorem Opens.eq_of_stands (hopens : Opens brace mark) (h : mark <+: c :: cs) : c = brace := by
  obtain ⟨tail, rfl, -⟩ := hopens
  exact (List.cons_prefix_cons.mp h).1.symm

/-- What comes after a mark is shorter than the text. -/
theorem Opens.length_lt (hopens : Opens brace mark) (h : mark ++ rest = text) :
    rest.length < text.length := by
  obtain ⟨tail, rfl, -⟩ := hopens
  rw [← h, List.length_append, List.length_cons]
  omega

/-- No mark stands in characters without its opening one. -/
theorem substituteAllFrom_plain (hmarks : ∀ s ∈ marks, Opens brace s.1) (hplain : brace ∉ cs)
    (rest : List Char) :
    substituteAllFrom marks 0 (cs ++ rest) = cs ++ substituteAllFrom marks 0 rest := by
  induction cs with
  | nil => rfl
  | cons c cs ih =>
    rw [List.mem_cons, not_or] at hplain
    have hnone : marks.find? (·.1.isPrefixOf (c :: (cs ++ rest))) = none := by
      rw [List.find?_eq_none]
      intro s hs hstands
      exact hplain.1 ((hmarks s hs).eq_of_stands (List.isPrefixOf_iff_prefix.mp hstands)).symm
    rw [List.cons_append, substituteAllFrom_own hnone, ih hplain.2]
    rfl

/-- Where a mark stands that is none of those replaced, it stays. -/
theorem substituteAllFrom_kept (hmarks : ∀ s ∈ marks, Opens brace s.1) (hopens : Opens brace mark)
    (hnone : marks.find? (·.1.isPrefixOf (mark ++ rest)) = none) :
    substituteAllFrom marks 0 (mark ++ rest) = mark ++ substituteAllFrom marks 0 rest := by
  obtain ⟨tail, rfl, htail⟩ := hopens
  rw [List.cons_append] at hnone ⊢
  rw [substituteAllFrom_own hnone, substituteAllFrom_plain hmarks htail]
  rfl

theorem occurrencesIn_plain (hopens : Opens brace mark) (hplain : brace ∉ cs) (rest : List Char) :
    occurrencesIn mark (cs ++ rest) = occurrencesIn mark rest := by
  induction cs with
  | nil => rfl
  | cons c cs ih =>
    rw [List.mem_cons, not_or] at hplain
    have hnot : ¬ mark <+: c :: (cs ++ rest) :=
      fun hstands => hplain.1 (hopens.eq_of_stands hstands).symm
    rw [List.cons_append, occurrencesIn, if_neg (mt List.isPrefixOf_iff_prefix.mp hnot),
      Nat.zero_add, ih hplain.2]

/-- A mark at the beginning occurs there once. -/
theorem occurrencesIn_mark (hopens : Opens brace mark) (rest : List Char) :
    occurrencesIn mark (mark ++ rest) = occurrencesIn mark rest + 1 := by
  have hprefix : mark.isPrefixOf (mark ++ rest) = true :=
    List.isPrefixOf_iff_prefix.mpr (List.prefix_append mark rest)
  have hplain := hopens
  obtain ⟨tail, rfl, htail⟩ := hopens
  rw [List.cons_append] at hprefix ⊢
  rw [occurrencesIn, if_pos hprefix, occurrencesIn_plain hplain htail, Nat.add_comm]

/-- A mark does not occur in another one. -/
theorem occurrencesIn_other (hopens : Opens brace mark) (hopens' : Opens brace cs)
    (hnot : ¬ mark <+: cs) (hnot' : ¬ cs <+: mark) (rest : List Char) :
    occurrencesIn mark (cs ++ rest) = occurrencesIn mark rest := by
  have hhere : ¬ mark <+: cs ++ rest := fun hprefix =>
    (List.prefix_or_prefix_of_prefix hprefix (List.prefix_append cs rest)).elim hnot hnot'
  obtain ⟨tail, rfl, htail⟩ := hopens'
  rw [List.cons_append] at hhere ⊢
  rw [occurrencesIn, if_neg (mt List.isPrefixOf_iff_prefix.mp hhere), Nat.zero_add,
    occurrencesIn_plain hopens htail]

/-! ## A text cut at a mark -/

/-- Characters, and places of a mark spelled as `value`. -/
def spell (value : List Char) (parts : List (Option Char)) : List Char :=
  parts.flatMap fun
    | some c => [c]
    | none => value

theorem spell_own (value cs : List Char) (parts : List (Option Char)) :
    spell value (cs.map some ++ parts) = cs ++ spell value parts := by
  induction cs with
  | nil => rfl
  | cons c cs ih => exact congrArg (c :: ·) ih

/-- The text cut into characters and the places of a mark, once other marks are replaced. -/
inductive Cut (marks : List (List Char × List Char)) (mark : List Char) :
    List Char → List (Option Char) → Prop where
  | nil : Cut marks mark [] []
  | replaced {rest parts found} :
    marks.find? (·.1.isPrefixOf (found.1 ++ rest)) = some found → Cut marks mark rest parts →
    Cut marks mark (found.1 ++ rest) (found.2.map some ++ parts)
  | place {rest parts} :
    marks.find? (·.1.isPrefixOf (mark ++ rest)) = none → Cut marks mark rest parts →
    Cut marks mark (mark ++ rest) (none :: parts)
  | own {c cs parts} :
    marks.find? (·.1.isPrefixOf (c :: cs)) = none → ¬ mark <+: c :: cs → Cut marks mark cs parts →
    Cut marks mark (c :: cs) (some c :: parts)

theorem exists_cut (hopens : Opens brace mark) (hmarks : ∀ s ∈ marks, Opens brace s.1)
    (text : List Char) : ∃ parts, Cut marks mark text parts := by
  induction hlength : text.length using Nat.strong_induction_on generalizing text with
  | _ n ih =>
    subst hlength
    cases text with
    | nil => exact ⟨[], .nil⟩
    | cons c cs =>
      cases hfind : marks.find? (·.1.isPrefixOf (c :: cs)) with
      | some found =>
        have hfound := hmarks found (List.mem_of_find?_eq_some hfind)
        obtain ⟨rest, hrest⟩ : found.1 <+: c :: cs := by simpa using List.find?_some hfind
        obtain ⟨parts, hparts⟩ := ih rest.length (hfound.length_lt hrest) rest rfl
        rw [← hrest] at hfind ⊢
        exact ⟨_, .replaced hfind hparts⟩
      | none =>
        by_cases hprefix : mark <+: c :: cs
        · obtain ⟨rest, hrest⟩ := hprefix
          obtain ⟨parts, hparts⟩ := ih rest.length (hopens.length_lt hrest) rest rfl
          rw [← hrest] at hfind ⊢
          exact ⟨_, .place hfind hparts⟩
        · obtain ⟨parts, hparts⟩ := ih cs.length (by simp) cs rfl
          exact ⟨_, .own hfind hprefix hparts⟩

namespace Cut

variable {parts : List (Option Char)}

/-- The places spelled as the mark make the text with the other marks replaced. -/
theorem spell_mark (h : Cut marks mark text parts) (hopens : Opens brace mark)
    (hmarks : ∀ s ∈ marks, Opens brace s.1) :
    spell mark parts = substituteAllFrom marks 0 text := by
  induction h with
  | nil => rfl
  | replaced hfound _ ih =>
    rw [spell_own, ih, substituteAllFrom_found (hmarks _ (List.mem_of_find?_eq_some hfound)) hfound]
  | place hnone _ ih =>
    rw [substituteAllFrom_kept hmarks hopens hnone, ← ih]
    rfl
  | own hnone _ _ ih =>
    rw [substituteAllFrom_own hnone, ← ih]
    rfl

/-- The places spelled as a value make the text with the mark replaced in the same pass. -/
theorem spell_value (h : Cut marks mark text parts) (hopens : Opens brace mark)
    (hmarks : ∀ s ∈ marks, Opens brace s.1) (value : List Char) :
    spell value parts = substituteAllFrom (marks ++ [(mark, value)]) 0 text := by
  induction h with
  | nil => rfl
  | replaced hfound _ ih =>
    rw [spell_own, ih, substituteAllFrom_found (hmarks _ (List.mem_of_find?_eq_some hfound))]
    rw [List.find?_append, hfound, Option.some_or]
  | @place rest parts hnone _ ih =>
    have hhere : mark.isPrefixOf (mark ++ rest) = true :=
      List.isPrefixOf_iff_prefix.mpr (List.prefix_append mark rest)
    have hfound : (marks ++ [(mark, value)]).find? (·.1.isPrefixOf (mark ++ rest))
        = some (mark, value) := by
      rw [List.find?_append, hnone, Option.none_or, List.find?_cons, hhere]
    rw [substituteAllFrom_found hopens hfound, ← ih]
    rfl
  | own hnone hnot _ ih =>
    rw [substituteAllFrom_own, ← ih]
    · rfl
    · rw [List.find?_append, hnone, Option.none_or, List.find?_singleton]
      exact if_neg (mt List.isPrefixOf_iff_prefix.mp hnot)

/-- There are as many places as the mark has occurrences in the text. -/
theorem count_none (h : Cut marks mark text parts) (hopens : Opens brace mark)
    (hmarks : ∀ s ∈ marks, Opens brace s.1)
    (hfree : ∀ s ∈ marks, ¬ s.1 <+: mark ∧ ¬ mark <+: s.1) :
    parts.count none = occurrencesIn mark text := by
  induction h with
  | nil => rfl
  | replaced hfound _ ih =>
    have hmem := List.mem_of_find?_eq_some hfound
    rw [List.count_append, ih, occurrencesIn_other hopens (hmarks _ hmem) (hfree _ hmem).2
      (hfree _ hmem).1, List.count_eq_zero_of_not_mem (by simp), Nat.zero_add]
  | place _ _ ih => rw [List.count_cons_self, ih, occurrencesIn_mark hopens]
  | own _ hnot _ ih =>
    rw [List.count_cons_of_ne (by simp), ih, occurrencesIn,
      if_neg (mt List.isPrefixOf_iff_prefix.mp hnot), Nat.zero_add]

end Cut

/-! ## Occurrences that are no places -/

/-- The parts `finer` have all places of `parts`, and places besides where `parts` has the
characters of the mark. -/
inductive Refines (mark : List Char) : List (Option Char) → List (Option Char) → Prop where
  | nil : Refines mark [] []
  | own (c : Char) {finer parts} : Refines mark finer parts →
    Refines mark (some c :: finer) (some c :: parts)
  | place {finer parts} : Refines mark finer parts → Refines mark (none :: finer) (none :: parts)
  | stray {finer parts} : Refines mark finer parts →
    Refines mark (none :: finer) (mark.map some ++ parts)

/-- Characters without the opening one are spelled by characters, not by a place. -/
theorem exists_own_of_prefix (hopens : Opens brace mark) (hplain : brace ∉ cs)
    {parts : List (Option Char)} (h : cs <+: spell mark parts) :
    ∃ rest, parts = cs.map some ++ rest := by
  induction cs generalizing parts with
  | nil => exact ⟨parts, rfl⟩
  | cons c cs ih =>
    rw [List.mem_cons, not_or] at hplain
    cases parts with
    | nil => exact absurd (List.prefix_nil.mp h) (List.cons_ne_nil c cs)
    | cons part parts =>
      cases part with
      | none =>
        obtain ⟨tail, rfl, -⟩ := hopens
        exact absurd (List.cons_prefix_cons.mp h).1.symm hplain.1
      | some own =>
        obtain ⟨rfl, hrest⟩ := List.cons_prefix_cons.mp h
        obtain ⟨rest, rfl⟩ := ih hplain.2 hrest
        exact ⟨rest, rfl⟩

/-- Replacing a mark in a text that was spelled with it puts its value at the places, and wherever
else the mark stands. -/
theorem exists_refines (hopens : Opens brace mark) (value : List Char)
    (parts : List (Option Char)) : ∃ finer, Refines mark finer parts ∧
      substituteFrom mark value 0 (spell mark parts) = spell value finer ∧
      occurrencesIn mark (spell mark parts) = finer.count none := by
  simp only [substituteFrom_eq]
  have hfound : ∀ rest : List Char,
      [(mark, value)].find? (·.1.isPrefixOf (mark ++ rest)) = some (mark, value) := by
    intro rest
    rw [List.find?_singleton]
    exact if_pos (List.isPrefixOf_iff_prefix.mpr (List.prefix_append mark rest))
  induction hlength : parts.length using Nat.strong_induction_on generalizing parts with
  | _ n ih =>
    subst hlength
    -- a place and a stray occurrence are replaced alike
    have hmark : ∀ rest : List (Option Char), rest.length < parts.length →
        spell mark parts = mark ++ spell mark rest →
        ∃ finer, Refines mark finer rest ∧
          substituteAllFrom [(mark, value)] 0 (spell mark parts) = spell value (none :: finer) ∧
          occurrencesIn mark (spell mark parts) = (none :: finer).count none := by
      intro rest hlt hspell
      obtain ⟨finer, hrefines, hvalue, hcount⟩ := ih rest.length hlt rest rfl
      refine ⟨finer, hrefines, ?_, ?_⟩
      · rw [hspell, substituteAllFrom_found hopens (hfound _), hvalue]
        rfl
      · rw [hspell, occurrencesIn_mark hopens, hcount, List.count_cons_self]
    cases parts with
    | nil => exact ⟨[], .nil, rfl, rfl⟩
    | cons part parts =>
      cases part with
      | none =>
        obtain ⟨finer, hrefines, hfiner⟩ := hmark parts (by simp) rfl
        exact ⟨none :: finer, .place hrefines, hfiner⟩
      | some c =>
        by_cases hprefix : mark <+: c :: spell mark parts
        · obtain ⟨tail, htail, hplain⟩ := id hopens
          rw [htail, List.cons_prefix_cons] at hprefix
          obtain ⟨rfl, hprefix⟩ := hprefix
          rw [← htail] at hprefix
          obtain ⟨rest, rfl⟩ := exists_own_of_prefix hopens hplain hprefix
          have hparts : some brace :: (tail.map some ++ rest) = mark.map some ++ rest := by
            rw [htail]; rfl
          obtain ⟨finer, hrefines, hfiner⟩ := hmark rest
            (by simp only [List.length_cons, List.length_append]; omega) (by rw [hparts, spell_own])
          exact ⟨none :: finer, hparts ▸ .stray hrefines, hfiner⟩
        · obtain ⟨finer, hrefines, hvalue, hcount⟩ := ih parts.length (by simp) parts rfl
          have hnot := mt List.isPrefixOf_iff_prefix.mp hprefix
          refine ⟨some c :: finer, .own c hrefines, ?_, ?_⟩
          · show substituteAllFrom [(mark, value)] 0 (c :: spell mark parts) = c :: spell value finer
            rw [substituteAllFrom_own, hvalue]
            rw [List.find?_singleton]
            exact if_neg hnot
          · show occurrencesIn mark (c :: spell mark parts) = _
            rw [occurrencesIn, if_neg hnot, hcount, Nat.zero_add, List.count_cons_of_ne (by simp)]

namespace Refines

variable {finer parts : List (Option Char)}

theorem spell_mark (h : Refines mark finer parts) : spell mark finer = spell mark parts := by
  induction h with
  | nil => rfl
  | own c _ ih => exact congrArg (c :: ·) ih
  | place _ ih => exact congrArg (mark ++ ·) ih
  | stray _ ih =>
    rw [spell_own, ← ih]
    rfl

/-- With as many places the parts are the same. -/
theorem eq_or_lt (h : Refines mark finer parts) :
    finer = parts ∨ parts.count none < finer.count none := by
  induction h with
  | nil => exact .inl rfl
  | own c _ ih =>
    rw [List.count_cons_of_ne (by simp), List.count_cons_of_ne (by simp)]
    exact ih.imp_left (congrArg (some c :: ·))
  | place _ ih =>
    rw [List.count_cons_self, List.count_cons_self]
    exact ih.imp (congrArg (none :: ·)) Nat.succ_lt_succ
  | stray _ ih =>
    rw [List.count_append, List.count_cons_self, List.count_eq_zero_of_not_mem (by simp),
      Nat.zero_add]
    refine .inr (Nat.lt_succ_of_le ?_)
    rcases ih with rfl | hlt
    · exact Nat.le_refl _
    · exact Nat.le_of_lt hlt

/-- Places of another length change the length of the text. -/
theorem length_spell (value : List Char) (parts : List (Option Char)) :
    (spell value parts).length + parts.count none = parts.length + parts.count none * value.length := by
  induction parts with
  | nil => simp [spell]
  | cons part parts ih =>
    cases part with
    | none =>
      rw [List.count_cons_self, List.length_cons, Nat.succ_mul]
      show (value ++ spell value parts).length + _ = _
      rw [List.length_append]
      omega
    | some c =>
      rw [List.count_cons_of_ne (by simp), List.length_cons]
      show (spell value parts).length + 1 + _ = _
      omega

/-- A value as long as the mark, and not the mark, shows where it was put in. -/
theorem eq_of_spell (h : Refines mark finer parts) (hlength : value.length = mark.length)
    (hspell : spell value finer = spell value parts) : finer = parts ∨ value = mark := by
  induction h with
  | nil => exact .inl rfl
  | own c _ ih => exact (ih (List.cons.inj hspell).2).imp_left (congrArg (some c :: ·))
  | place _ ih => exact (ih (List.append_cancel_left hspell)).imp_left (congrArg (none :: ·))
  | stray _ _ =>
    rw [spell_own] at hspell
    exact .inr (List.append_inj hspell hlength).1

/-- Spelled as a value, the places of both are the same text exactly if no place was added, or if
the value is the mark. -/
theorem spell_eq_iff (h : Refines mark finer parts) :
    spell value finer = spell value parts ↔ finer.count none = parts.count none ∨ value = mark := by
  constructor
  · intro hspell
    by_cases hcount : finer.count none = parts.count none
    · exact .inl hcount
    have hmore : parts.count none < finer.count none :=
      h.eq_or_lt.resolve_left fun heq => hcount (heq ▸ rfl)
    have hlengths := congrArg List.length hspell
    have hmarks := congrArg List.length h.spell_mark
    have hf := length_spell value finer
    have hp := length_spell value parts
    have hfm := length_spell mark finer
    have hpm := length_spell mark parts
    have hlength : value.length = mark.length := by
      obtain ⟨extra, hextra⟩ := Nat.exists_eq_add_of_lt hmore
      rw [hextra] at hf hfm
      have hsame : (extra + 1) * value.length = (extra + 1) * mark.length := by
        simp only [Nat.add_mul] at *
        omega
      exact Nat.eq_of_mul_eq_mul_left (Nat.succ_pos extra) hsame
    exact (h.eq_of_spell hlength hspell).imp_left (congrArg (List.count none))
  · rintro (hcount | rfl)
    · rcases h.eq_or_lt with rfl | hlt
      · rfl
      · omega
    · exact h.spell_mark

end Refines

/-- Replacing one more mark, after others were replaced in one pass, comes to the pass with that
mark exactly if the mark then stands only where it stood in the text, or is its own value. -/
theorem substituteFrom_eq_iff (hopens : Opens brace mark) (hmarks : ∀ s ∈ marks, Opens brace s.1)
    (hfree : ∀ s ∈ marks, ¬ s.1 <+: mark ∧ ¬ mark <+: s.1) (value text : List Char) :
    substituteFrom mark value 0 (substituteAllFrom marks 0 text)
        = substituteAllFrom (marks ++ [(mark, value)]) 0 text ↔
      occurrencesIn mark (substituteAllFrom marks 0 text) = occurrencesIn mark text ∨
        value = mark := by
  obtain ⟨parts, hcut⟩ := exists_cut hopens hmarks text
  obtain ⟨finer, hrefines, hvalue, hcount⟩ := exists_refines hopens value parts
  rw [← hcut.spell_mark hopens hmarks, ← hcut.spell_value hopens hmarks, hvalue, hcount,
    ← hcut.count_none hopens hmarks hfree]
  exact hrefines.spell_eq_iff

/-! ## Marks in order -/

/-- Marks that begin with one character, which they do not have again, and none of which begins
with another one. -/
structure MarksOf (brace : Char) (marks : List (String × String)) : Prop where
  opens : ∀ s ∈ marks, Opens brace s.1.toList
  free : marks.Pairwise fun s t => ¬ s.1.toList <+: t.1.toList ∧ ¬ t.1.toList <+: s.1.toList

/-- The mark that comes up, after `n` others, stands in the text that these have made where it did
not stand in the text: what was put in has it, or has made it up with what was there. -/
def Strays (marks : List (String × String)) (text : String) (n : Nat) : Prop :=
  ∃ s, marks[n]? = some s ∧ s.2 ≠ s.1 ∧
    occurrences s.1 (substituteAll (marks.take n) text) ≠ occurrences s.1 text

variable {pairs : List (String × String)} {pair : String × String} {n : Nat}

theorem substituteInOrder_concat (pairs : List (String × String)) (pair : String × String)
    (text : String) : substituteInOrder (pairs ++ [pair]) text
      = substitute pair.1 pair.2 (substituteInOrder pairs text) :=
  List.foldl_append

/-- One more mark: in order and in one pass are the same exactly if the mark does not stray. -/
theorem substitute_eq_iff (hmarks : MarksOf brace (pairs ++ [pair])) (text : String) :
    substitute pair.1 pair.2 (substituteAll pairs text) = substituteAll (pairs ++ [pair]) text ↔
      occurrences pair.1 (substituteAll pairs text) = occurrences pair.1 text ∨
        pair.2 = pair.1 := by
  have hopens := hmarks.opens pair (by simp)
  have hfree := (List.pairwise_append.mp hmarks.free).2.2
  rw [substitute, substituteAll, substituteAll, occurrences, occurrences, String.toList_ofList,
    String.ofList_inj, List.map_append, List.map_singleton, ← @String.toList_inj pair.2]
  refine substituteFrom_eq_iff hopens ?_ ?_ pair.2.toList text.toList
  · exact List.forall_mem_map.mpr fun s hs => hmarks.opens s (List.mem_append_left _ hs)
  · exact List.forall_mem_map.mpr fun s hs => hfree s hs pair (List.mem_singleton_self pair)

theorem substituteAll_nil (text : String) : substituteAll [] text = text := by
  have hsame : ∀ cs : List Char, substituteAllFrom [] 0 cs = cs := by
    intro cs
    induction cs with
    | nil => rfl
    | cons c cs ih => rw [substituteAllFrom_own rfl, ih]
  rw [substituteAll, List.map_nil, hsame, String.ofList_toList]

/-- Marks replaced one after the other make the text that one pass makes as long as none strays, and
another text at the first that does. -/
theorem inOrder_eq_substituteAll_iff (hmarks : MarksOf brace pairs) (text : String) {k : Nat}
    (hk : k ≤ pairs.length) :
    (∀ n ≤ k, substituteInOrder (pairs.take n) text = substituteAll (pairs.take n) text) ↔
      ∀ n < k, ¬ Strays pairs text n := by
  have hstep : ∀ n < pairs.length,
      substituteInOrder (pairs.take n) text = substituteAll (pairs.take n) text →
      (substituteInOrder (pairs.take (n + 1)) text = substituteAll (pairs.take (n + 1)) text ↔
        ¬ Strays pairs text n) := by
    intro n hn hsame
    have htake : pairs.take (n + 1) = pairs.take n ++ [pairs[n]] :=
      (List.take_concat_get' pairs n hn).symm
    have hmarks' : MarksOf brace (pairs.take n ++ [pairs[n]]) := by
      rw [← htake]
      exact ⟨fun s hs => hmarks.opens s (List.mem_of_mem_take hs),
        hmarks.free.sublist (List.take_sublist _ _)⟩
    rw [htake, substituteInOrder_concat, hsame, substitute_eq_iff hmarks' text]
    simp only [Strays, List.getElem?_eq_getElem hn, Option.some.injEq, exists_eq_left', not_and_or,
      not_not]
    exact or_comm
  constructor
  · intro hall n hn
    exact (hstep n (by omega) (hall n (by omega))).mp (hall (n + 1) hn)
  · intro hnone n
    induction n with
    | zero => exact fun _ => (substituteAll_nil text).symm
    | succ n ih => exact fun hn => (hstep n (by omega) (ih (by omega))).mpr (hnone n hn)

/-! ## Texts whose marks do not stray -/

/-- Wherever the opening character stands, a mark stands. -/
def EachOpens (brace : Char) (pairs : List (String × String)) (text : List Char) : Prop :=
  ∀ cs ∈ text.tails, cs.head? = some brace → ∃ s ∈ pairs, s.1.toList <+: cs

instance (brace : Char) (pairs : List (String × String)) (text : List Char) :
    Decidable (EachOpens brace pairs text) :=
  inferInstanceAs (Decidable
    (∀ cs ∈ text.tails, cs.head? = some brace → ∃ s ∈ pairs, s.1.toList <+: cs))

theorem EachOpens.of_suffix {cs : List Char} (h : EachOpens brace pairs text) (hsuffix : cs <:+ text) :
    EachOpens brace pairs cs :=
  fun rest hrest => h rest ((List.mem_tails _ _).mpr (((List.mem_tails _ _).mp hrest).trans hsuffix))

/-- Of two marks neither begins with the other unless they are one. -/
theorem MarksOf.free_of_ne {s t : String × String} (h : MarksOf brace pairs) (hs : s ∈ pairs)
    (ht : t ∈ pairs) (hne : s ≠ t) :
    ¬ s.1.toList <+: t.1.toList ∧ ¬ t.1.toList <+: s.1.toList := by
  have hsymm : Std.Symm fun s t : String × String =>
      ¬ s.1.toList <+: t.1.toList ∧ ¬ t.1.toList <+: s.1.toList := ⟨fun _ _ => And.symm⟩
  exact h.free.forall hs ht hne

/-- Of all marks only the mark itself is an occurrence of it. -/
theorem MarksOf.occurrencesIn_append {s t : String × String} (h : MarksOf brace pairs)
    (hs : s ∈ pairs) (ht : t ∈ pairs) (rest : List Char) :
    occurrencesIn t.1.toList (s.1.toList ++ rest)
      = occurrencesIn t.1.toList rest + if s = t then 1 else 0 := by
  by_cases hsame : s = t
  · rw [if_pos hsame, hsame, occurrencesIn_mark (h.opens t ht)]
  · have hfree := h.free_of_ne hs ht hsame
    rw [if_neg hsame, occurrencesIn_other (h.opens t ht) (h.opens s hs) hfree.2 hfree.1,
      Nat.add_zero]

/-- Where each opening character of a text opens a mark, values without one add no occurrence. -/
theorem occurrencesIn_substituteAllFrom {before after : List (String × String)}
    (hmarks : MarksOf brace (before ++ pair :: after))
    (hvalues : ∀ s ∈ before, brace ∉ s.2.toList) (text : List Char)
    (htext : EachOpens brace (before ++ pair :: after) text) :
    occurrencesIn pair.1.toList (substituteAllFrom (before.map characters) 0 text)
      = occurrencesIn pair.1.toList text := by
  have hpair : pair ∈ before ++ pair :: after := by simp
  have hopens := hmarks.opens pair hpair
  have hbefore : ∀ s ∈ before.map characters, Opens brace s.1 :=
    List.forall_mem_map.mpr fun s hs => hmarks.opens s (List.mem_append_left _ hs)
  induction hlength : text.length using Nat.strong_induction_on generalizing text with
  | _ n ih =>
    subst hlength
    cases text with
    | nil => rfl
    | cons c cs =>
      by_cases hc : c = brace
      · subst hc
        cases hfind : (before.map characters).find? (·.1.isPrefixOf (c :: cs)) with
        | some found =>
          obtain ⟨s, hs, rfl⟩ := List.mem_map.mp (List.mem_of_find?_eq_some hfind)
          have hs' : s ∈ before ++ pair :: after := List.mem_append_left _ hs
          obtain ⟨rest, hrest⟩ : (characters s).1 <+: c :: cs := by
            simpa using List.find?_some hfind
          have hshorter := (hmarks.opens s hs').length_lt hrest
          have hfree := (List.pairwise_append.mp hmarks.free).2.2 s hs pair (by simp)
          have hsuffix : rest <:+ c :: cs := ⟨_, hrest⟩
          rw [← hrest] at hfind ⊢
          rw [substituteAllFrom_found (hbefore _ (List.mem_map_of_mem hs)) hfind, characters,
            occurrencesIn_plain hopens (hvalues s hs),
            occurrencesIn_other hopens (hmarks.opens s hs') hfree.2 hfree.1]
          exact ih rest.length hshorter rest (htext.of_suffix hsuffix) rfl
        | none =>
          obtain ⟨s, hs, rest, hrest⟩ := htext (c :: cs) ((List.mem_tails _ _).mpr List.suffix_rfl) rfl
          have hsuffix : rest <:+ c :: cs := ⟨_, hrest⟩
          have hrec := ih rest.length ((hmarks.opens s hs).length_lt hrest) rest
            (htext.of_suffix hsuffix) rfl
          rw [← hrest] at hfind ⊢
          rw [substituteAllFrom_kept hbefore (hmarks.opens s hs) hfind,
            hmarks.occurrencesIn_append hs hpair, hmarks.occurrencesIn_append hs hpair, hrec]
      · have hplain : brace ∉ [c] := by simpa using Ne.symm hc
        rw [← List.singleton_append, substituteAllFrom_plain hbefore hplain,
          occurrencesIn_plain hopens hplain, occurrencesIn_plain hopens hplain]
        exact ih cs.length (by simp) cs (htext.of_suffix (List.suffix_cons c cs)) rfl

/-- Where each opening character opens a mark, and what is put in before the last has none, no mark
strays. -/
theorem not_strays (hmarks : MarksOf brace pairs) (text : String)
    (htext : EachOpens brace pairs text.toList)
    (hvalues : ∀ s ∈ pairs.dropLast, brace ∉ s.2.toList) (n : Nat) : ¬ Strays pairs text n := by
  rintro ⟨pair, hpair, -, hdiffer⟩
  obtain ⟨hn, rfl⟩ := List.getElem?_eq_some_iff.mp hpair
  have hsplit : pairs = pairs.take n ++ pairs[n] :: pairs.drop (n + 1) := by
    rw [← List.drop_eq_getElem_cons hn, List.take_append_drop]
  have hearlier : ∀ s ∈ pairs.take n, brace ∉ s.2.toList := by
    intro s hs
    apply hvalues s
    rw [List.dropLast_eq_take]
    exact (List.take_prefix_take_left (by omega)).subset hs
  apply hdiffer
  rw [occurrences, occurrences, substituteAll, String.toList_ofList]
  exact occurrencesIn_substituteAllFrom (hsplit ▸ hmarks) hearlier text.toList (hsplit ▸ htext)

end CellRules.Text
