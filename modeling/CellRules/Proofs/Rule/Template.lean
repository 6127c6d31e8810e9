/-
CellRules.Proofs.Rule.Template — messages filled in one place after the other, and all at once.

The places of a template are filled in the order rule, column, value, row, so a name or a cell that
has the text of a later place is itself searched for it. A message is the one that a single pass
makes (`renderAtOnce`) unless a place strays: unless what was filled in has a later place, or makes
one up with what is around it. The two part at the first place that strays
(`filled_eq_filledAtOnce_iff`). For that an opening brace is needed, in what is filled in or left
over in the template (`Text.not_strays`).
-/
import CellRules.Proofs.Text.Substitute
import CellRules.Rule.Template

namespace CellRules.Template

open Text

variable {t : Template} {ctx : RowContext}

/-- The message with all places filled in one pass over the template. -/
def renderAtOnce (t : Template) (ctx : RowContext) : String :=
  substituteAll (t.substitutions ctx) t.text

/-- The message when `n` places have been filled, one after the other. -/
def filled (t : Template) (ctx : RowContext) (n : Nat) : String :=
  substituteInOrder ((t.substitutions ctx).take n) t.text

/-- The message when `n` places have been filled in one pass. -/
def filledAtOnce (t : Template) (ctx : RowContext) (n : Nat) : String :=
  substituteAll ((t.substitutions ctx).take n) t.text

/-- When `n` places have been filled, the next one also stands where the template does not have
it, and is to be filled with something else. -/
def Strays (t : Template) (ctx : RowContext) (n : Nat) : Prop :=
  Text.Strays (t.substitutions ctx) t.text n

/-- Neither the names nor the judged cell have an opening brace, and those of the template open
places. -/
structure Plain (t : Template) (ctx : RowContext) : Prop where
  inserted : ∀ s ∈ (t.substitutions ctx).dropLast, '\x7b' ∉ s.2.toList
  opened : EachOpens '\x7b' (t.substitutions ctx) t.text.toList

theorem marksOf_substitutions (t : Template) (ctx : RowContext) :
    MarksOf '\x7b' (t.substitutions ctx) where
  opens := by
    simp only [substitutions, List.forall_mem_cons]
    exact ⟨⟨_, rfl, by decide⟩, ⟨_, rfl, by decide⟩, ⟨_, rfl, by decide⟩, ⟨_, rfl, by decide⟩,
      nofun⟩
  free := by
    have hmarks : ["{rule}", "{column}", "{value}", "{row}"].Pairwise fun s t : String =>
        ¬ s.toList <+: t.toList ∧ ¬ t.toList <+: s.toList := by decide
    rw [show ["{rule}", "{column}", "{value}", "{row}"] = (t.substitutions ctx).map (·.1) from rfl,
      List.pairwise_map] at hmarks
    exact hmarks

/-- A message is made as one pass over the template makes it as long as no place strays, and
differs from it at the first that does. So the whole message is that of one pass if no place
strays, and none does if names and cell have no opening brace and those of the template open
places. -/
theorem filled_eq_filledAtOnce_iff (t : Template) (ctx : RowContext) :
    (∀ k ≤ 4, (∀ n ≤ k, t.filled ctx n = t.filledAtOnce ctx n) ↔ ∀ n < k, ¬ t.Strays ctx n) ∧
      ((∀ n < 4, ¬ t.Strays ctx n) → t.render ctx = t.renderAtOnce ctx) ∧
      (t.Plain ctx → ∀ n, ¬ t.Strays ctx n) := by
  have hmarks := marksOf_substitutions t ctx
  have hstages : ∀ k ≤ 4,
      (∀ n ≤ k, t.filled ctx n = t.filledAtOnce ctx n) ↔ ∀ n < k, ¬ t.Strays ctx n :=
    fun k hk => inOrder_eq_substituteAll_iff hmarks t.text hk
  exact ⟨hstages, fun hnone => (hstages 4 (Nat.le_refl 4)).mpr hnone 4 (Nat.le_refl 4),
    fun hplain => not_strays hmarks t.text hplain.opened hplain.inserted⟩

/-- A cell of a note in row seven. -/
def note (text : String) : RowContext := ⟨7, [("Note", .text text)], some "Note", none⟩

/-- A message that has all places, on a cell without an opening brace. -/
theorem filled_eq_filledAtOnce_iff_note :
    let t : Template := ⟨"Note_length", "{rule}: {column} = {value} in row {row}"⟩
    t.render (note "a\x7db") = t.renderAtOnce (note "a\x7db") ∧
      t.renderAtOnce (note "a\x7db") = "Note_length: Note = a\x7db in row 7" := by
  intro t
  obtain ⟨-, hrender, hplain⟩ := filled_eq_filledAtOnce_iff t (note "a\x7db")
  exact ⟨hrender fun n _ => hplain ⟨by decide, by decide⟩ n, by decide +kernel⟩

/-- A note that has the text of a place is not put in as it is. -/
theorem note_of_place_is_filled :
    let t : Template := ⟨"r", "{value}"⟩
    t.renderAtOnce (note "{row}") = "{row}" ∧ t.render (note "{row}") = "7" ∧
      t.render (note "{row}") ≠ t.renderAtOnce (note "{row}") := by
  decide +kernel

end CellRules.Template
