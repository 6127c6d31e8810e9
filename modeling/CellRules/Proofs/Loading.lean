/-
CellRules.Proofs.Loading — verdicts and rows that nobody made.

A verdict that is made is a success or has a message, and a row that is made has distinct columns and
judges one of them. Loading goes another way: it takes the members of a text as they are and does not
look whether they fit together. So it rules nothing out. Every verdict is loaded from its own text,
and every row is loaded whose index fits and whose cells are loaded. What is loaded keeps to what its
constructors promise exactly if they could have made it (`loaded_kept_iff_made`); a failure without a
message and a row of two columns of one name are loaded as well (`unmade_is_loaded`).
-/
import CellRules.Proofs.Merging
import CellRules.Proofs.Row.Coherent
import CellRules.Proofs.Row.Loading

namespace CellRules

open Json Number RowContext

/-! ## Verdicts -/

namespace Verdict

theorem sound_toJson {unread : Prop} (v : Verdict) : Sound unread v.toJson :=
  .object (by simpa using ⟨.bool _, .string _, .string _⟩)

/-- A verdict is decoded from what it is encoded as. -/
theorem ofJson?_toJson (v : Verdict) : ofJson? v.toJson = some v := by
  have hrecord : v.toJson.record? false ["is_valid", "severity", "message"]
      = some [some (.bool v.passes), some v.severity.toJson, some (.string v.message)] := rfl
  have hseverity : Severity.ofJson? v.severity.toJson = some v.severity :=
    Severity.ofWord?_word v.severity
  simp [ofJson?, hrecord, hseverity, bool?, Json.string?]

/-- Every verdict is loaded from its text. -/
theorem load?_toJson (v : Verdict) : load? ofJson? (compact v.toJson) = some v :=
  load?_compact v.sound_toJson v.ofJson?_toJson

end Verdict

/-! ## What is loaded -/

/-- A verdict that is loaded is a success or has a message exactly if it can be made. A row that is
loaded can be made exactly if its columns are distinct, it judges one of them and a value is typed
only there, and it is coherent exactly if it can be made without setting a value over the one typed.
Loading itself rules out no verdict, no row whose index fits and whose cells are loaded, and no cell
but floats. -/
theorem loaded_kept_iff_made (text : String) :
    (∀ v, load? Verdict.ofJson? text = some v → (v.Lawful ↔ v.Made)) ∧
      (∀ ctx, load? RowContext.ofJson? text = some ctx →
        (ctx.Made ↔ ctx.columns.Nodup ∧ ctx.Placed ∧ (ctx.column = none → ctx.pending = none)) ∧
          (ctx.Coherent ↔ ∃ values changes, (ofValues ctx.row values).takeAll changes = ctx ∧
            ¬ Overtaken (ofValues ctx.row values) changes)) ∧
      (∀ v : Verdict, load? Verdict.ofJson? (compact v.toJson) = some v) ∧
      (∀ ctx : RowContext,
        ctx.Loadable ↔ ctx.row < twoTo 64 ∧ ∀ cell ∈ ctx.cells, cell.Loadable) ∧
      ∀ cell : Cell, cell.Exact → cell.Loadable :=
  ⟨fun _ _ => Verdict.made_iff_lawful.symm, fun _ _ => ⟨made_iff, coherent_iff⟩,
    Verdict.load?_toJson, fun _ => RowContext.loadable_iff, fun _ => Cell.Exact.loadable⟩

/-- The text of a verdict, its members in another order and one more among them. -/
def looseText : String :=
  "\x7b \"message\": \"odd\", \"seen\": [1, true], \"severity\": \"info\", \"is_valid\": false\x7d"

theorem loaded_kept_iff_made_loose :
    load? Verdict.ofJson? looseText = some ⟨false, .info, "odd"⟩ ∧
      (Verdict.mk false .info "odd").Made := by
  have hload : load? Verdict.ofJson? looseText = some ⟨false, .info, "odd"⟩ := by decide +kernel
  obtain ⟨hverdict, -⟩ := loaded_kept_iff_made looseText
  exact ⟨hload, (hverdict _ hload).mp ⟨nofun, fun _ => by decide⟩⟩

/-! ## What nobody made -/

/-- The text of a failure without a message. -/
def blankText : String := "\x7b\"is_valid\":false,\"severity\":\"error\",\"message\":\"\"\x7d"

/-- A row with two columns of one name, and a value typed that neither has. -/
def twice : RowContext := ⟨0, [("A", .text "x"), ("A", .text "y")], some "A", some (.text "z")⟩

/-- The text of such a row. -/
def twiceText : String :=
  "\x7b\"row_index\":0,\"values\":[[\"A\",\x7b\"type\":\"text\",\"value\":\"x\"\x7d]," ++
    "[\"A\",\x7b\"type\":\"text\",\"value\":\"y\"\x7d]],\"current_column\":\"A\"," ++
    "\"pending_value\":\x7b\"type\":\"text\",\"value\":\"z\"\x7d\x7d"

/-- A failure without a message is loaded, and so is a row that has one column twice and judges
a value that it does not have there. -/
theorem unmade_is_loaded :
    (load? Verdict.ofJson? blankText = some ⟨false, .error, ""⟩ ∧
        ¬ (Verdict.mk false .error "").Lawful) ∧
      load? RowContext.ofJson? twiceText = some twice ∧ ¬ twice.columns.Nodup ∧
        twice.current? ≠ twice.column.bind twice.get? := by
  refine ⟨⟨by decide +kernel, fun h => ?_⟩, ?_, by decide, ?_⟩
  · have hmessage := h.failed rfl
    revert hmessage
    decide
  · have htext : twiceText = compact twice.toJson := by decide +kernel
    rw [htext]
    exact RowContext.load?_toJson (by decide) (by simp [twice, cells, Cell.Exact])
  · simp [twice, current?, get?]

end CellRules
