/-
CellRules.Proofs.Text.Pattern — which texts have a form.

`Pattern.Spells` says what a pattern describes, without taking characters: a text after another, one
of two texts, texts in a row. What is left of a pattern after a character describes just what may come
after it (`Pattern.spells_after`), although what is done or cannot be met is dropped on the way; so a
text is found to have the form exactly if the pattern describes it (`Pattern.fits_iff`). The forms
that are made of others are described by the texts that they are put together from.
-/
import CellRules.Text.Pattern
import Mathlib.Data.List.Basic

namespace CellRules.Text.Pattern

/-- The pattern describes the text. -/
inductive Spells : Pattern → List Char → Prop
  | empty : Spells empty []
  | one {kind : Char → Bool} {c : Char} (h : kind c = true) : Spells (one kind) [c]
  | next {first second : Pattern} {xs ys : List Char} (hfirst : Spells first xs)
      (hsecond : Spells second ys) : Spells (next first second) (xs ++ ys)
  | first {first second : Pattern} {cs : List Char} (h : Spells first cs) :
      Spells (either first second) cs
  | second {first second : Pattern} {cs : List Char} (h : Spells second cs) :
      Spells (either first second) cs
  | none {p : Pattern} : Spells (many p) []
  | more {p : Pattern} {xs ys : List Char} (h : Spells p xs) (hmore : Spells (many p) ys) :
      Spells (many p) (xs ++ ys)

variable {p first second : Pattern} {kind : Char → Bool} {c : Char} {cs xs ys : List Char}
  {n least most : Nat}

/-! ## What a pattern describes -/

@[simp] theorem not_spells_never : ¬ never.Spells cs := nofun

@[simp] theorem spells_empty : empty.Spells cs ↔ cs = [] := by
  constructor
  · rintro ⟨⟩
    rfl
  · rintro rfl
    exact .empty

@[simp] theorem spells_one : (one kind).Spells cs ↔ ∃ c, kind c = true ∧ cs = [c] := by
  constructor
  · rintro ⟨⟩
    exact ⟨_, ‹_›, rfl⟩
  · rintro ⟨c, hc, rfl⟩
    exact .one hc

theorem spells_next :
    (next first second).Spells cs ↔ ∃ xs ys, first.Spells xs ∧ second.Spells ys ∧ cs = xs ++ ys := by
  constructor
  · rintro ⟨⟩
    exact ⟨_, _, ‹_›, ‹_›, rfl⟩
  · rintro ⟨xs, ys, hfirst, hsecond, rfl⟩
    exact .next hfirst hsecond

@[simp] theorem spells_either :
    (either first second).Spells cs ↔ first.Spells cs ∨ second.Spells cs := by
  constructor
  · intro h
    cases h with
    | first h => exact .inl h
    | second h => exact .inr h
  · rintro (h | h)
    · exact .first h
    · exact .second h

/-- Texts in a row are texts of the form, one after another. -/
theorem spells_many :
    (many p).Spells cs ↔ ∃ parts : List (List Char), (∀ part ∈ parts, p.Spells part) ∧
      cs = parts.flatten := by
  constructor
  · intro h
    -- The induction is on how the text is put together, for whatever pattern that is.
    generalize hq : many p = q at h
    induction h with
    | none => exact ⟨[], nofun, rfl⟩
    | @more p' xs ys h _ _ ih =>
      obtain rfl := Pattern.many.inj hq
      obtain ⟨parts, hparts, rfl⟩ := ih rfl
      exact ⟨xs :: parts, List.forall_mem_cons.mpr ⟨h, hparts⟩, rfl⟩
    | _ => cases hq
  · rintro ⟨parts, hparts, rfl⟩
    induction parts with
    | nil => exact .none
    | cons part parts ih =>
      obtain ⟨hpart, hrest⟩ := List.forall_mem_cons.mp hparts
      exact .more hpart (ih hrest)

/-! ## Taking characters -/

/-- Nothing needs to come exactly if the pattern describes the empty text. -/
theorem mayEnd_iff : p.mayEnd = true ↔ p.Spells [] := by
  induction p with
  | never => simp [mayEnd]
  | empty => simp [mayEnd]
  | one kind => simp [mayEnd]
  | next first second hfirst hsecond => simp [mayEnd, spells_next, hfirst, hsecond]
  | either first second hfirst hsecond => simp [mayEnd, hfirst, hsecond]
  | many p => simp [mayEnd, Spells.none]

@[simp] theorem spells_followedBy :
    (first.followedBy second).Spells cs ↔ (next first second).Spells cs := by
  unfold followedBy
  split <;> simp [spells_next]

@[simp] theorem spells_orElse :
    (first.orElse second).Spells cs ↔ (either first second).Spells cs := by
  unfold orElse
  split <;> simp

/-- A text of two forms in order starts with a character of the first one, or the first one is
empty. -/
theorem spells_next_cons : (next first second).Spells (c :: cs) ↔
    (∃ xs ys, first.Spells (c :: xs) ∧ second.Spells ys ∧ cs = xs ++ ys) ∨
      (first.Spells [] ∧ second.Spells (c :: cs)) := by
  rw [spells_next]
  constructor
  · rintro ⟨xs, ys, hfirst, hsecond, h⟩
    cases xs with
    | nil =>
      rw [List.nil_append] at h
      exact .inr ⟨hfirst, h ▸ hsecond⟩
    | cons d xs =>
      obtain ⟨rfl, rfl⟩ := List.cons.inj h
      exact .inl ⟨xs, ys, hfirst, hsecond, rfl⟩
  · rintro (⟨xs, ys, hfirst, hsecond, rfl⟩ | ⟨hfirst, hsecond⟩)
    · exact ⟨c :: xs, ys, hfirst, hsecond, rfl⟩
    · exact ⟨[], c :: cs, hfirst, hsecond, rfl⟩

/-- The first of texts in a row that is not empty starts with the first character. -/
theorem spells_many_cons : (many p).Spells (c :: cs) ↔
    ∃ xs ys, p.Spells (c :: xs) ∧ (many p).Spells ys ∧ cs = xs ++ ys := by
  constructor
  · intro h
    generalize hq : many p = q at h
    generalize ht : c :: cs = text at h
    induction h with
    | none => cases ht
    | @more p' xs ys h hmore _ ih =>
      obtain rfl := Pattern.many.inj hq
      cases xs with
      | nil => exact ih rfl ht
      | cons d xs =>
        obtain ⟨rfl, rfl⟩ := List.cons.inj ht
        exact ⟨xs, ys, h, hmore, rfl⟩
    | _ => cases hq
  · rintro ⟨xs, ys, h, hmore, rfl⟩
    exact .more h hmore

/-- What is left after a character describes what may come after it. -/
theorem spells_after : (p.after c).Spells cs ↔ p.Spells (c :: cs) := by
  induction p generalizing cs with
  | never => simp [after]
  | empty => simp [after]
  | one kind =>
    rw [after, spells_one]
    split
    · rename_i hkind
      rw [spells_empty]
      constructor
      · rintro rfl
        exact ⟨c, hkind, rfl⟩
      · rintro ⟨d, -, h⟩
        exact (List.cons.inj h).2
    · rename_i hkind
      refine iff_of_false not_spells_never ?_
      rintro ⟨d, hd, h⟩
      exact hkind ((List.cons.inj h).1 ▸ hd)
  | next first second hfirst hsecond =>
    rw [spells_next_cons, after]
    split
    · rename_i hend
      simp [spells_next, hfirst, hsecond, mayEnd_iff.mp hend]
    · rename_i hend
      rw [mayEnd_iff] at hend
      simp [spells_next, hfirst, hend]
  | either first second hfirst hsecond => simp [after, hfirst, hsecond]
  | many p hp => simp [after, spells_many_cons, spells_next, hp]

/-- A text has the form exactly if the pattern describes it. -/
theorem fits_iff : p.fits cs = true ↔ p.Spells cs := by
  induction cs generalizing p with
  | nil => exact mayEnd_iff
  | cons c cs ih => rw [← spells_after, ← ih]; rfl

/-! ## Forms that are made of others -/

@[simp] theorem spells_char : (char c).Spells cs ↔ cs = [c] := by
  simp [char]

@[simp] theorem spells_row_nil : (row []).Spells cs ↔ cs = [] := spells_empty

@[simp] theorem spells_row_cons {ps : List Pattern} : (row (p :: ps)).Spells cs ↔
    ∃ xs ys, p.Spells xs ∧ (row ps).Spells ys ∧ cs = xs ++ ys := spells_next

@[simp] theorem spells_maybe : (maybe p).Spells cs ↔ cs = [] ∨ p.Spells cs := by
  simp [maybe]

/-- Characters of a kind in a row. -/
theorem spells_many_one : (many (one kind)).Spells cs ↔ ∀ c ∈ cs, kind c = true := by
  induction cs with
  | nil => exact iff_of_true .none nofun
  | cons c cs ih => simp [spells_many_cons, ih]

theorem spells_oneOrMore_one :
    (oneOrMore (one kind)).Spells cs ↔ cs ≠ [] ∧ ∀ c ∈ cs, kind c = true := by
  cases cs with
  | nil => simp [oneOrMore, spells_next]
  | cons c cs => simp [oneOrMore, spells_next_cons, spells_many_one]

/-- So many characters of a kind. -/
theorem spells_times_one :
    (times n (one kind)).Spells cs ↔ cs.length = n ∧ ∀ c ∈ cs, kind c = true := by
  induction n generalizing cs with
  | zero => simp +contextual [times]
  | succ n ih =>
    cases cs with
    | nil => simp [times, spells_next]
    | cons c cs => simp [times, spells_next_cons, ih, and_left_comm]

/-- At most so many characters of a kind. -/
theorem spells_upTo_one :
    (upTo n (one kind)).Spells cs ↔ cs.length ≤ n ∧ ∀ c ∈ cs, kind c = true := by
  induction n generalizing cs with
  | zero => simp +contextual [upTo]
  | succ n ih =>
    cases cs with
    | nil => simp [upTo]
    | cons c cs => simp [upTo, spells_next_cons, ih, and_left_comm]

/-- A number of characters of a kind between two bounds. -/
theorem spells_between_one (h : least ≤ most) :
    (between least most (one kind)).Spells cs ↔
      least ≤ cs.length ∧ cs.length ≤ most ∧ ∀ c ∈ cs, kind c = true := by
  simp only [between, spells_next, spells_times_one, spells_upTo_one]
  constructor
  · rintro ⟨xs, ys, ⟨hxs, hkind⟩, ⟨hys, hkind'⟩, rfl⟩
    rw [List.length_append]
    refine ⟨by omega, by omega, fun c hc => ?_⟩
    exact (List.mem_append.mp hc).elim (hkind c) (hkind' c)
  · rintro ⟨hleast, hmost, hkind⟩
    refine ⟨cs.take least, cs.drop least, ⟨?_, ?_⟩, ⟨?_, ?_⟩, (List.take_append_drop ..).symm⟩
    · rw [List.length_take]
      omega
    · exact fun c hc => hkind c (List.mem_of_mem_take hc)
    · rw [List.length_drop]
      omega
    · exact fun c hc => hkind c (List.mem_of_mem_drop hc)

end CellRules.Text.Pattern
