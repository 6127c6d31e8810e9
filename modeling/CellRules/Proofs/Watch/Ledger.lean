/-
CellRules.Proofs.Watch.Ledger — what the operations of a ledger do to the entry of each cell.

A ledger is a keyed list in which `find?` is the only way to look. Every operation changes the entry
of ONE cell, so each is described by two facts: what `find?` gives for that cell afterwards, and
that it gives the same as before for any other. Later modules use these and never open the list.
-/
import CellRules.Watch.Ledger

namespace CellRules.Ledger

variable {l l' : Ledger} {key other : CellKey} {c : CellState} {generation : Nat}
  {fanOut : List String}

/-! ## Setting and dropping entries -/

theorem find?_setIn (entries : List (CellKey × CellState)) :
    (setIn key c entries).find? (·.1 == other)
      = if other = key then some (other, c) else entries.find? (·.1 == other) := by
  induction entries with
  | nil =>
    by_cases h : other = key
    · subst h; simp [setIn]
    · simp [setIn, h, Ne.symm h]
  | cons entry rest ih =>
    obtain ⟨k, old⟩ := entry
    rw [setIn]
    split
    · rename_i hk
      subst hk
      by_cases h : other = k
      · subst h; simp
      · simp [h, Ne.symm h]
    · rename_i hk
      by_cases h : k = other
      · subst h; simp [hk]
      · simp [h, ih]

@[simp] theorem find?_set_self : (l.set key c).find? key = some c := by
  simp [find?, set, find?_setIn]

theorem find?_set_of_ne (h : other ≠ key) : (l.set key c).find? other = l.find? other := by
  simp [find?, set, find?_setIn, h]

@[simp] theorem find?_erase_self : (l.erase key).find? key = none := by
  simp [find?, erase, List.find?_eq_none]

theorem find?_erase_of_ne (h : other ≠ key) : (l.erase key).find? other = l.find? other := by
  have hfilter : ((l.entries.filter (·.1 != key)).find? (·.1 == other))
      = l.entries.find? (·.1 == other) := by
    rw [List.find?_filter]
    congr 1
    funext entry
    by_cases he : entry.1 = other
    · simp [he, h]
    · simp [he]
  rw [find?, erase, hfilter, find?]

/-- An empty ledger knows no cell. -/
theorem find?_of_isEmpty (h : l.isEmpty = true) : l.find? key = none := by
  rw [isEmpty, List.isEmpty_iff] at h
  simp [find?, h]

/-- A ledger in which an entry was set is not empty. -/
theorem isEmpty_set (l : Ledger) (key : CellKey) (c : CellState) :
    (l.set key c).isEmpty = false := by
  have hentries : ∀ entries, (setIn key c entries).isEmpty = false := by
    intro entries
    cases entries with
    | nil => rfl
    | cons entry rest =>
      rw [setIn]
      split <;> rfl
  exact hentries l.entries

/-- No cell is counted exactly if none has an entry. -/
theorem isEmpty_iff_size : l.isEmpty = true ↔ l.size = 0 := by
  rw [isEmpty, List.isEmpty_iff, size, List.length_eq_zero_iff]

theorem size_eq_zero : l.size = 0 ↔ ∀ key, l.find? key = none := by
  constructor
  · intro h key
    exact find?_of_isEmpty (by rw [isEmpty, List.isEmpty_iff, ← List.length_eq_zero_iff]; exact h)
  · intro h
    cases hentries : l.entries with
    | nil => simp [size, hentries]
    | cons entry rest =>
      have hnone := h entry.1
      simp [find?, hentries] at hnone

/-! ## Asking for an evaluation -/

@[simp] theorem find?_request_self :
    (l.request key generation fanOut).find? key
      = some (((l.find? key).getD {}).request generation fanOut) := by
  simp [request]

theorem find?_request_of_ne (h : other ≠ key) :
    (l.request key generation fanOut).find? other = l.find? other := by
  simp [request, find?_set_of_ne h]

/-- The newest evaluation of a cell is in the entry of the cell. -/
theorem current?_eq_some {r : Request} :
    l.current? key = some r ↔ ∃ c, l.find? key = some c ∧ c.current = some r := by
  simp [current?, Option.bind_eq_some_iff]

theorem current?_of_find? (h : l.find? key = some c) : l.current? key = c.current := by
  simp [current?, h]

theorem current?_set_of_ne (h : other ≠ key) :
    (l.set key c).current? other = l.current? other := by
  rw [current?, find?_set_of_ne h, current?]

/-! ## Beginning, claiming and finishing -/

/-- An evaluation begins exactly if it is the newest one of its cell. -/
theorem begin?_eq_some :
    l.begin? key generation = some (fanOut, l') ↔
      ∃ c phase, l.find? key = some c ∧ c.current = some ⟨generation, phase, fanOut⟩ ∧
        l' = l.set key { c with current := some ⟨generation, .running, []⟩ } := by
  rw [begin?]
  constructor
  · intro h
    split at h
    · cases h
    · rename_i c hc
      split at h
      · cases h
      · rename_i r hr
        split at h
        · rename_i hg
          subst hg
          obtain ⟨rfl, rfl⟩ := Prod.mk.inj (Option.some.inj h)
          exact ⟨c, r.phase, hc, hr, rfl⟩
        · cases h
  · rintro ⟨c, phase, hc, hr, rfl⟩
    simp [hc, hr]

theorem begin?_eq_none (h : l.begin? key generation = none) :
    ∀ r, l.current? key = some r → r.generation ≠ generation := by
  rintro ⟨g, phase, columns⟩ hr rfl
  obtain ⟨c, hc, hcur⟩ := current?_eq_some.mp hr
  have hsome := begin?_eq_some.mpr ⟨c, phase, hc, hcur, rfl⟩
  rw [h] at hsome
  cases hsome

/-- A report may be delivered exactly if the cell has an entry and no newer generation of the cell
was delivered while it had one. -/
theorem claim?_eq_some :
    l.claim? key generation = some l' ↔
      ∃ c, l.find? key = some c ∧ (∀ d, c.delivered = some d → d ≤ generation) ∧
        l' = l.set key { c with delivered := some generation } := by
  unfold claim?
  cases hfind : l.find? key with
  | none => simp
  | some c =>
    cases hd : c.delivered with
    | none => simp [hd, eq_comm]
    | some d =>
      by_cases h : generation < d
      · simp [hd, h, Nat.not_le.mpr h]
      · simp [hd, h, Nat.not_lt.mp h, eq_comm]

theorem claim?_eq_none (h : l.claim? key generation = none) (hc : l.find? key = some c) :
    ∃ d, c.delivered = some d ∧ generation < d := by
  unfold claim? at h
  simp only [hc] at h
  cases hd : c.delivered with
  | none => simp [hd] at h
  | some d =>
    by_cases hlt : generation < d
    · exact ⟨d, rfl, hlt⟩
    · simp [hd, hlt] at h

/-- To claim the delivery of a cell leaves the newest evaluations. -/
theorem current?_claim? (h : l.claim? key generation = some l') :
    l'.current? other = l.current? other := by
  obtain ⟨c, hc, -, rfl⟩ := claim?_eq_some.mp h
  by_cases hkey : other = key
  · subst hkey
    rw [current?_of_find? find?_set_self, current?_of_find? hc]
  · exact current?_set_of_ne hkey

/-- What is left of the entry of a cell when one of its evaluations finishes. -/
def leftAfter (c : CellState) (generation : Nat) : Option CellState :=
  if (c.finish generation).isIdle then none else some (c.finish generation)

theorem find?_finish_self (h : l.find? key = some c) :
    (l.finish key generation).find? key = leftAfter c generation := by
  unfold finish leftAfter
  simp only [h]
  split <;> simp

theorem find?_finish : (l.finish key generation).find? key
    = (l.find? key).bind fun c => leftAfter c generation := by
  cases hc : l.find? key with
  | none => rw [finish, hc]; exact hc
  | some c => exact find?_finish_self hc

theorem find?_finish_of_ne (h : other ≠ key) :
    (l.finish key generation).find? other = l.find? other := by
  unfold finish
  split
  · rfl
  · dsimp only
    split
    · exact find?_erase_of_ne h
    · exact find?_set_of_ne h

theorem current?_finish_of_ne (h : other ≠ key) :
    (l.finish key generation).current? other = l.current? other := by
  rw [current?, find?_finish_of_ne h, current?]

/-- When an older evaluation of a cell finishes, the newest one stays. -/
theorem current?_finish_self (h : ∀ r, l.current? key = some r → r.generation ≠ generation) :
    (l.finish key generation).current? key = l.current? key := by
  cases hfind : l.find? key with
  | none => simp [finish, hfind]
  | some c =>
    rw [current?_of_find? hfind] at h
    have hstays : (c.finish generation).current = c.current := by
      cases hcur : c.current with
      | none => simp [CellState.finish, hcur]
      | some r => simp [CellState.finish, hcur, h r hcur]
    rw [current?, find?_finish_self hfind, leftAfter, current?_of_find? hfind, ← hstays]
    split
    · rename_i hidle
      rw [CellState.isIdle, Bool.and_eq_true, Option.isNone_iff_eq_none] at hidle
      exact hidle.1.symm
    · rfl

/-- One that finishes takes no other evaluation out of the entry of a cell. -/
theorem current?_finish (l : Ledger) (key other : CellKey) (generation : Nat) :
    (l.finish key generation).current? other = l.current? other ∨
      other = key ∧ (l.finish key generation).current? other = none ∧
        ∃ r, l.current? other = some r ∧ r.generation = generation := by
  by_cases hkey : other = key
  · subst hkey
    by_cases hnewest : ∃ r, l.current? other = some r ∧ r.generation = generation
    · obtain ⟨r, hr, rfl⟩ := hnewest
      obtain ⟨c, hfind, hcur⟩ := current?_eq_some.mp hr
      have hgone : (c.finish r.generation).current = none := by simp [CellState.finish, hcur]
      refine .inr ⟨rfl, ?_, r, hr, rfl⟩
      rw [current?, find?_finish_self hfind, leftAfter]
      split
      · rfl
      · exact hgone
    · exact .inl (current?_finish_self fun r hr hg => hnewest ⟨r, hr, hg⟩)
  · exact .inl (current?_finish_of_ne hkey)

theorem leftAfter_eq_none :
    leftAfter c generation = none ↔
      (c.finish generation).current = none ∧ (c.finish generation).superseded = 0 := by
  simp [leftAfter, CellState.isIdle]

theorem leftAfter_eq_some {c' : CellState} (h : leftAfter c generation = some c') :
    c' = c.finish generation ∧ (c'.current ≠ none ∨ c'.superseded ≠ 0) := by
  unfold leftAfter at h
  split at h
  · cases h
  · rename_i hidle
    cases h
    refine ⟨rfl, ?_⟩
    simp only [CellState.isIdle, Bool.and_eq_true, Option.isNone_iff_eq_none, beq_iff_eq] at hidle
    exact Classical.not_and_iff_not_or_not.mp hidle

/-- What is left of an entry remembers what the entry did. -/
theorem find?_of_find?_finish (h : (l.finish key generation).find? other = some c) :
    ∃ b, l.find? other = some b ∧ c.delivered = b.delivered ∧
      ∀ r, c.current = some r → b.current = some r := by
  by_cases hkey : other = key
  · subst hkey
    cases hb : l.find? other with
    | none =>
      rw [finish, hb] at h
      rw [hb] at h
      cases h
    | some b =>
      rw [find?_finish_self hb] at h
      obtain ⟨rfl, -⟩ := leftAfter_eq_some h
      refine ⟨b, rfl, ?_, fun r hr => ?_⟩
      · unfold CellState.finish
        split <;> rfl
      · unfold CellState.finish at hr
        split at hr
        · cases hr
        · exact hr
  · rw [find?_finish_of_ne hkey] at h
    exact ⟨c, h, rfl, fun r hr => hr⟩

/-! ## Cells with an entry -/

theorem contains_set : (l.set key c).contains other = true ↔ other = key ∨ l.contains other = true := by
  by_cases hkey : other = key
  · subst hkey
    simp [contains]
  · simp [contains, find?_set_of_ne hkey, hkey]

theorem contains_request : (l.request key generation fanOut).contains other = true ↔
    other = key ∨ l.contains other = true := contains_set

/-- An entry that is changed was there. -/
theorem contains_set_of_find? {c' : CellState} (h : l.find? key = some c) :
    (l.set key c').contains other = l.contains other := by
  have hkey : l.contains key = true := by simp [contains, h]
  rw [Bool.eq_iff_iff, contains_set]
  exact or_iff_right_of_imp fun heq => heq ▸ hkey

theorem contains_begin? (h : l.begin? key generation = some (fanOut, l')) :
    l'.contains other = l.contains other := by
  obtain ⟨c, phase, hc, -, rfl⟩ := begin?_eq_some.mp h
  exact contains_set_of_find? hc

theorem contains_claim? (h : l.claim? key generation = some l') :
    l'.contains other = l.contains other := by
  obtain ⟨c, hc, -, rfl⟩ := claim?_eq_some.mp h
  exact contains_set_of_find? hc

theorem contains_of_finish (h : (l.finish key generation).contains other = true) :
    l.contains other = true := by
  obtain ⟨c, hc⟩ := Option.isSome_iff_exists.mp h
  obtain ⟨b, hb, -⟩ := find?_of_find?_finish hc
  simp [contains, hb]

end CellRules.Ledger
