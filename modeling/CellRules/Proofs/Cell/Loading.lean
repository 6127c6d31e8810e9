/-
CellRules.Proofs.Cell.Loading — cells that were saved are loaded again.

What a text is loaded as is read by the notation and decoded. A cell is decoded from what it is
encoded as, with the exception of a float: its digits are rounded on the way (`Cell.ofJson?_toJson`).
A float is loaded from its numeral alone, though, so a cell that is loaded from some text at all is
loaded from one that holds nothing else and can be put into another (`Cell.exists_sound_of_load?`).
-/
import CellRules.Cell.Json
import CellRules.Proofs.Calendar.ReadBack
import CellRules.Proofs.Json.RoundTrip

namespace CellRules

open Calendar Json Number

/-! ## Loading -/

namespace Json

variable {α : Type} {decode : Json → Option α} {unread : Prop} {j : Json} {a : α} {text : String}

/-- What a text is loaded as. -/
def load? (decode : Json → Option α) (text : String) : Option α := (ofText? text).bind decode

theorem load?_compact (hj : Sound False j) (h : decode j = some a) :
    load? decode (compact j) = some a := by
  rw [load?, ofText?_compact hj, Option.bind_some, h]

/-- What is loaded is decoded from a value whose numerals are numerals. -/
theorem sound_of_load? (h : load? decode text = some a) : ∃ j, Sound True j ∧ decode j = some a := by
  obtain ⟨j, hread, hdecode⟩ := Option.bind_eq_some_iff.mp h
  exact ⟨j, sound_of_ofText? hread, hdecode⟩

/-- The value of a member is a part of the object. -/
theorem member?_mem {name : String} {members : List (String × Json)} {v : Json}
    (h : member? name members = some (some v)) : ∃ m ∈ members, m.2 = v := by
  unfold member? at h
  split at h
  · cases h
  · rename_i name' v' hfilter
    obtain rfl := Option.some.inj (Option.some.inj h)
    have hmem : (name', v') ∈ members.filter (·.1 == name) := by
      rw [hfilter]
      simp
    exact ⟨_, (List.mem_filter.mp hmem).1, rfl⟩
  · cases h

/-- The values of a record are parts of the value it is taken from. -/
theorem sound_of_record? (hj : Sound unread j) {short : Bool} {names : List String}
    {values : List (Option Json)} (h : j.record? short names = some values) :
    ∀ v, some v ∈ values → Sound unread v := by
  intro v hv
  cases hj with
  | object hmembers =>
    obtain ⟨name, -, hname⟩ := exists_of_mapM_eq_some h hv
    obtain ⟨m, hm, rfl⟩ := member?_mem hname
    exact hmembers m hm
  | array hitems =>
    rw [record?] at h
    split at h
    · obtain rfl := Option.some.inj h
      rcases List.mem_append.mp hv with hpresent | habsent
      · obtain ⟨item, hitem, heq⟩ := List.mem_map.mp hpresent
        obtain rfl := Option.some.inj heq
        exact hitems item hitem
      · cases List.eq_of_mem_replicate habsent
    · cases h
  | null | bool | number | string | unreadable => cases h

end Json

/-! ## Cells -/

namespace Cell

variable {cell : Cell} {j : Json} {text : String}

/-- The cell is not a float. -/
def Exact : Cell → Prop
  | .float _ => False
  | _ => True

theorem sound_toJson {unread : Prop} (h : cell.Exact) : Sound unread cell.toJson := by
  have htagged {kind : String} {v : Json} (hv : Sound unread v) : Sound unread (tagged kind v) :=
    .object (by simpa using ⟨.string kind, hv⟩)
  cases cell with
  | null => exact .object (by simpa using .string _)
  | bool b => exact htagged (.bool b)
  | int i => exact htagged (sound_int _)
  | float x => exact h.elim
  | text s => exact htagged (.string s)
  | date d => exact htagged (.string _)
  | moment m => exact htagged (.string _)

theorem ofJson?_tagged (kind : String) (v : Json) :
    ofJson? (tagged kind v) = ofTagged? kind (some v) := rfl

/-- A cell is decoded from what it is encoded as. -/
theorem ofJson?_toJson (h : cell.Exact) : ofJson? cell.toJson = some cell := by
  cases cell with
  | null => rfl
  | bool b => rfl
  | int i =>
    have hint := int64?_int i.le_toInt i.toInt_lt
    simp [toJson, ofJson?_tagged, ofTagged?, hint]
  | float x => exact h.elim
  | text s => rfl
  | date d => simp [toJson, ofJson?_tagged, ofTagged?, Json.string?, Date.ofDataText?_text]
  | moment m =>
    simp [toJson, ofJson?_tagged, ofTagged?, Json.string?, Moment.ofDataText?_exactText]

/-- Only a value that is a number makes a float. -/
theorem ofTagged?_eq_float {kind : String} {value : Option Json} {x : Float}
    (h : ofTagged? kind value = some (.float x)) : ∃ v, value = some v ∧ v.float? = some x := by
  unfold ofTagged? at h
  split at h
  · split at h <;> cases h
  · obtain ⟨v, rfl, hv⟩ := Option.bind_eq_some_iff.mp h
    refine ⟨v, rfl, ?_⟩
    split_ifs at hv
    all_goals
      obtain ⟨value, hvalue, heq⟩ := Option.map_eq_some_iff.mp hv
      cases heq
    exact hvalue

/-- A float is loaded from a numeral. -/
theorem exists_numeral {x : Float} (hj : Sound True j) (h : ofJson? j = some (.float x)) :
    ∃ numeral : String, Grammar.Numeral numeral.toList ∧ (Json.number numeral).float? = some x := by
  unfold ofJson? at h
  split at h
  · rename_i kind value hrecord
    obtain ⟨word, -, htagged⟩ := Option.bind_eq_some_iff.mp h
    obtain ⟨v, rfl, hfloat⟩ := ofTagged?_eq_float htagged
    have hv := sound_of_record? hj hrecord v (by simp)
    cases v with
    | number numeral =>
      cases hv with
      | number hnumeral => exact ⟨numeral, hnumeral, hfloat⟩
    | _ => cases hfloat
  · cases h

/-- A cell that is loaded at all is loaded from a text of its own, that can be put into others. -/
theorem exists_sound_of_sound (hj : Sound True j) (h : ofJson? j = some cell) :
    ∃ own, Sound False own ∧ ofJson? own = some cell := by
  by_cases hexact : cell.Exact
  · exact ⟨cell.toJson, sound_toJson hexact, ofJson?_toJson hexact⟩
  · cases cell with
    | float x =>
      obtain ⟨numeral, hnumeral, hfloat⟩ := exists_numeral hj h
      refine ⟨tagged "float" (.number numeral), .object ?_, ?_⟩
      · simpa using ⟨.string _, .number hnumeral⟩
      · simp [ofJson?_tagged, ofTagged?, hfloat]
    | _ => exact absurd trivial hexact

/-- The cell is loaded from some text. -/
def Loadable (cell : Cell) : Prop := ∃ text, load? ofJson? text = some cell

theorem loadable_iff : cell.Loadable ↔ ∃ j, Sound False j ∧ ofJson? j = some cell := by
  constructor
  · rintro ⟨text, h⟩
    obtain ⟨j, hj, hdecode⟩ := sound_of_load? h
    exact exists_sound_of_sound hj hdecode
  · rintro ⟨j, hj, hdecode⟩
    exact ⟨compact j, load?_compact hj hdecode⟩

/-- Every cell but a float is loaded from some text. -/
theorem Exact.loadable (h : cell.Exact) : cell.Loadable :=
  loadable_iff.mpr ⟨cell.toJson, sound_toJson h, ofJson?_toJson h⟩

end Cell

end CellRules
