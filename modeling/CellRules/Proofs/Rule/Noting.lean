/-
CellRules.Proofs.Rule.Noting — what a rule notes of what it looks at.

An edit is followed up by what the rules have noted: the columns that they judge and read, and the
scopes in which they look at other rows. A rule NOTES ITS READS if its guard and its checks give the
same on two views of a row that agree on its columns; so does every rule made of named steps, however
many columns it judges (`Draft.build_notesReads`). A rule NOTES ITS SCOPES if each check among rows
is one for duplicates in a column that is in scope, or looks at other rows in the rule's columns only
while all rows are in scope; so does every rule whose own checks among rows keep to these columns,
whatever the other steps bring along (`Draft.build_notesScopes`).
-/
import CellRules.Proofs.Rule.Heeding
import Mathlib.Data.List.Forall2

namespace CellRules

variable {columns more : Set String} {v : Validator} {d : Draft} {r : Rule} {a b ctx : RowContext}
  {rows rows' : Dataset} {step : Step} {steps : List Step}

/-- A reworded check answers in the words of the style. -/
theorem Validator.answer_restyle (v : Validator) (style : Style) (ctx : RowContext)
    (rows : Dataset) :
    (v.restyle style).answer ctx rows = (v.answer ctx rows).map (style.apply ctx) := by
  cases v with
  | prompt judge => rfl
  | crossRow judge => rfl
  | delayed start =>
    simp only [restyle, answer]
    cases start ctx <;> rfl

/-! ## Reads -/

/-- A check looks at nothing of the judged row but some columns and the judged cell. -/
def Validator.ReadsIn (columns : Set String) (v : Validator) : Prop :=
  ∀ a b rows, a.AgreeOn columns b → v.answer a rows = v.answer b rows

/-- The guard and the checks look at nothing of the judged row but the rule's columns. -/
structure Rule.NotesReads (r : Rule) : Prop where
  guard : ∀ guard, r.guard = some guard → ∀ a b, a.AgreeOn r.columns b → guard a = guard b
  validators : ∀ v ∈ r.validators, v.ReadsIn r.columns

/-- Views that agree on the columns of a rule that notes its reads have one outcome. -/
theorem Rule.NotesReads.evaluate_agree (hr : r.NotesReads) (h : a.AgreeOn r.columns b) :
    (r.evaluate a rows).answer = (r.evaluate b rows).answer := by
  obtain ⟨o, ho⟩ := r.evaluate_ok a rows
  rw [ho, Rule.evaluate_same (fun guard hguard => hr.guard guard hguard a b h)
    (fun v hv => .inl (hr.validators v hv a b rows h)) ho]

theorem Validator.ReadsIn.mono (hv : v.ReadsIn columns) (hsub : columns ⊆ more) :
    v.ReadsIn more :=
  fun a b rows h => hv a b rows (h.mono hsub)

/-- Rewording looks at nothing but the judged cell. -/
theorem Validator.ReadsIn.restyle (hv : v.ReadsIn columns) (style : Style) :
    (v.restyle style).ReadsIn columns := by
  intro a b rows h
  rw [answer_restyle, answer_restyle, hv a b rows h, funext (h.styled style)]

/-- The step brings nothing along that looks at rows in its own way. -/
def Step.isNamed : Step → Bool
  | .guardBy _ | .andGuard _ | .orGuard _ | .judge _ | .judgeLater _ | .judgeAmong _
  | .satisfies _ => false
  | _ => true

namespace Draft

/-- What the draft has noted so far is all that it looks at of the judged row. -/
structure NotesReads (d : Draft) : Prop where
  guard : ∀ guard, d.guard = some guard →
    ∀ a b, a.AgreeOn {c | c ∈ d.reads} b → guard a = guard b
  validators : ∀ styled v, (styled, v) ∈ d.validators → v.ReadsIn {c | c ∈ d.reads}

theorem NotesReads.reading (hd : d.NotesReads) (names : List String) :
    (d.reading names).NotesReads := by
  have hsub : {c | c ∈ d.reads} ⊆ {c | c ∈ (d.reading names).reads} := fun c hc =>
    Ascending.mem_addAll.mpr (.inl hc)
  exact
    { guard := fun guard hguard a b h => hd.guard guard hguard a b (h.mono hsub)
      validators := fun styled v hv => (hd.validators styled v hv).mono hsub }

/-- A check in the rule's style. -/
theorem NotesReads.withStyled (hd : d.NotesReads) (hv : v.ReadsIn {c | c ∈ d.reads}) :
    (d.withStyled v).NotesReads where
  guard := hd.guard
  validators styled w hw := by
    rcases List.mem_append.mp hw with hw | hw
    · exact hd.validators styled w hw
    · obtain ⟨rfl, rfl⟩ := Prod.mk.inj (List.mem_singleton.mp hw)
      exact hv

/-- One named step notes what it reads. -/
theorem NotesReads.apply (hd : d.NotesReads) (hs : step.isNamed = true) :
    (d.apply step).NotesReads := by
  have hguard : ∀ {column guard}, step.guard? = some (column, guard) →
      (d.apply step).NotesReads := by
    intro column guard hnamed
    rw [apply_guard? hnamed]
    refine { (hd.reading [column]) with guard := fun other hother a b h => ?_ }
    obtain rfl := Option.some.inj hother
    exact Step.guard?_agree hnamed (h.values column (.inl (Ascending.mem_addAll.mpr (by simp))))
  have hcheck : ∀ {names check}, step.check? = some (names, check) →
      (d.apply step).NotesReads := by
    intro names check hnamed
    rw [apply_check? hnamed]
    refine (hd.reading names).withStyled fun a b rows h => ?_
    have hsame := Step.check?_agree hnamed (fun c hc => Ascending.mem_addAll.mpr (.inr hc)) h
    simp only [Validator.answer, hsame]
  cases step with
  | forColumn _ | forColumns _ | dependsOn _ | description _ | severity _ | priority _
  | message _ => exact { hd with }
  | columnEquals _ _ | columnHasValue _ | columnIsEmpty _ | columnContains _ _ =>
    exact hguard rfl
  | required | requiredFields _ | inRange _ _ _ | startBeforeEnd _ _ | email | phone =>
    exact hcheck rfl
  | unique column =>
    have hscoped : ((d.reading [column]).withScope (.sameValue column)).NotesReads :=
      { hd.reading [column] with }
    refine hscoped.withStyled fun a b rows h => ?_
    have hread : column ∈ Ascending.addAll d.reads [column] := Ascending.mem_addAll.mpr (by simp)
    exact congrArg Except.ok (h.unique (.inl hread))
  | guardBy _ | andGuard _ | orGuard _ | judge _ | judgeLater _ | judgeAmong _ | satisfies _ =>
    cases hs

/-- Named steps note what they read. -/
theorem NotesReads.applyAll (hd : d.NotesReads) (hs : ∀ step ∈ steps, step.isNamed = true) :
    (steps.foldl Draft.apply d).NotesReads := by
  induction steps generalizing d with
  | nil => exact hd
  | cons step steps ih =>
    exact ih (hd.apply (hs step (by simp))) fun s hmem => hs s (by simp [hmem])

/-- A rule made of named steps notes its reads, however many columns it judges. -/
theorem build_notesReads {name : String} (hr : (ofSteps name steps).build = .ok r)
    (hs : ∀ step ∈ steps, step.isNamed = true) : r.NotesReads := by
  have hd : (ofSteps name steps).NotesReads :=
    NotesReads.applyAll (d := { name }) ⟨nofun, nofun⟩ hs
  have hb := build_ok hr
  refine ⟨fun guard hguard a b h => ?_, fun v hv => ?_⟩
  · exact hd.guard guard (hb.guard ▸ hguard) a b (h.mono hb.reads)
  · obtain ⟨styled, w, hmem, rfl⟩ := hb.validators v hv
    have hw := (hd.validators styled w hmem).mono hb.reads
    split
    · exact hw.restyle _
    · exact hw

end Draft

/-- The rule is made of named steps. -/
def Rule.Named (r : Rule) : Prop :=
  ∃ name steps, (Draft.ofSteps name steps).build = .ok r ∧ ∀ step ∈ steps, step.isNamed = true

theorem Rule.Named.notesReads : r.Named → r.NotesReads := fun ⟨_, _, hr, hs⟩ =>
  Draft.build_notesReads hr hs

/-- What the step adds are rules of named steps. -/
def SetStep.Named : SetStep → Prop
  | .draft d => ∀ r, d.build = .ok r → r.Named
  | .rule r => r.Named
  | _ => True

/-- A rule set made of common checks, and of further rules of named steps, has rules of named steps
only. -/
theorem SetDraft.build_named {name : String} {steps : List SetStep} {s : RuleSet}
    (h : (ofSteps name steps).build.answer = .ok s) (hs : ∀ step ∈ steps, step.Named) :
    ∀ r ∈ s.rules, r.Named := by
  intro r hr
  obtain ⟨step, hstep, hadded⟩ := mem_added_of_build h hr
  have hnamed := hs step hstep
  have hshort : ∀ {name : String} {steps : List Step},
      .ok r ∈ [(Draft.ofSteps name steps).build] → (∀ step ∈ steps, step.isNamed = true) →
      r.Named := fun hr hsteps => ⟨_, _, (List.mem_singleton.mp hr).symm, hsteps⟩
  cases step with
  | required _ | email _ | range _ _ _ | unique _ | dateRange _ _ | requiredWhen _ _ _ =>
    exact hshort hadded (by simp [Step.isNamed])
  | draft draft => exact hnamed r (List.mem_singleton.mp hadded).symm
  | rule q =>
    obtain rfl := Except.ok.inj (List.mem_singleton.mp hadded)
    exact hnamed
  | mode _ | throttle _ => cases hadded

/-! ## Scopes -/

/-- Two rows that have the same in some columns. -/
structure RowContext.SameIn (columns : Set String) (a b : RowContext) : Prop where
  row : a.row = b.row
  column : a.column = b.column
  pending : a.pending = b.pending
  values : ∀ c ∈ columns, a.get? c = b.get? c

/-- Datasets that have the same rows in order: one row with all that it has, the others with some of
their columns. -/
def Dataset.SameBeside (row : Nat) (columns : Set String) (a b : Dataset) : Prop :=
  List.Forall₂ (fun x y => if x.row = row then x = y else x.SameIn columns y) a.rows b.rows

/-- A check among rows looks at nothing of the other rows but some columns. -/
def ReadsOthersIn (columns : Set String) (check : RowContext → Dataset → Answer) : Prop :=
  ∀ ctx rows rows', rows.SameBeside ctx.row columns rows' → check ctx rows = check ctx rows'

/-- What the check looks at in other rows is in a scope of the rule. -/
inductive Validator.Scoped (r : Rule) : Validator → Prop
  | prompt (judge : RowContext → Answer) : Scoped r (.prompt judge)
  | delayed (start : RowContext → Promise) : Scoped r (.delayed start)
  | unique (style : Style) (column : String) (scope : .sameValue column ∈ r.scopes) :
      Scoped r (.crossRow fun ctx rows => .ok (style.apply ctx (Check.unique column ctx rows)))
  | among (check : RowContext → Dataset → Answer) (reads : ReadsOthersIn r.columns check)
      (scope : .allRows ∈ r.scopes) : Scoped r (.crossRow check)

/-- What the checks look at in other rows is in a scope of the rule. -/
def Rule.NotesScopes (r : Rule) : Prop := ∀ v ∈ r.validators, v.Scoped r

namespace Draft

/-- Each check among rows so far is one for duplicates in a column in scope, or some step brought it
along and all rows are in scope. -/
def NotesScopes (steps : List Step) (d : Draft) : Prop :=
  ∀ styled check, (styled, .crossRow check) ∈ d.validators →
    (styled = true ∧ ∃ column, .sameValue column ∈ d.scopes ∧
      check = fun ctx rows => .ok (Check.unique column ctx rows)) ∨
    (styled = false ∧ .allRows ∈ d.scopes ∧ .judgeAmong check ∈ steps)

/-- A check of the row changes nothing about the scopes. -/
theorem NotesScopes.withCheck (hd : d.NotesScopes steps) {styled : Bool}
    (hv : v.stage ≠ .crossRow) :
    ({ d with validators := d.validators ++ [(styled, v)] } : Draft).NotesScopes steps := by
  intro styled' check hmem
  rcases List.mem_append.mp hmem with hmem | hmem
  · exact hd styled' check hmem
  · obtain ⟨-, rfl⟩ := Prod.mk.inj (List.mem_singleton.mp hmem)
    exact absurd rfl hv

/-- A scope more leaves those that there are. -/
theorem NotesScopes.withScope (hd : d.NotesScopes steps) (scope : Scope) :
    (d.withScope scope).NotesScopes steps := by
  intro styled check hmem
  have hkept : ∀ other ∈ d.scopes, other ∈ (d.withScope scope).scopes := fun other hother =>
    List.mem_append_left _ hother
  exact (hd styled check hmem).imp
    (fun ⟨hstyled, column, hscope, heq⟩ => ⟨hstyled, column, hkept _ hscope, heq⟩)
    (fun ⟨hstyled, hscope, hstep⟩ => ⟨hstyled, hkept _ hscope, hstep⟩)

/-- One step notes the scope of what it looks at in other rows. -/
theorem NotesScopes.apply (hd : d.NotesScopes steps) (hs : step ∈ steps) :
    (d.apply step).NotesScopes steps := by
  cases step with
  | forColumn _ | forColumns _ | dependsOn _ | description _ | severity _ | priority _ | message _
  | guardBy _ | andGuard _ | orGuard _ | columnEquals _ _ | columnHasValue _ | columnIsEmpty _
  | columnContains _ _ => exact hd
  | judge _ | judgeLater _ | satisfies _ | required | email | phone =>
    exact hd.withCheck (by simp [Validator.stage])
  | requiredFields _ | inRange _ _ _ | startBeforeEnd _ _ =>
    exact NotesScopes.withCheck (d := d.reading _) hd (by simp [Validator.stage])
  | judgeAmong check =>
    intro styled other hmem
    rcases List.mem_append.mp hmem with hmem | hmem
    · exact hd.withScope .allRows styled other hmem
    · obtain ⟨rfl, heq⟩ := Prod.mk.inj (List.mem_singleton.mp hmem)
      obtain rfl := Validator.crossRow.inj heq
      exact .inr ⟨rfl, by simp [Draft.apply, Draft.withScope], hs⟩
  | unique column =>
    intro styled other hmem
    rcases List.mem_append.mp hmem with hmem | hmem
    · exact NotesScopes.withScope (d := d.reading [column]) hd (.sameValue column) styled other hmem
    · obtain ⟨rfl, heq⟩ := Prod.mk.inj (List.mem_singleton.mp hmem)
      exact .inl ⟨rfl, column, by simp [Draft.apply, Draft.withScope, Draft.withStyled],
        Validator.crossRow.inj heq⟩

theorem NotesScopes.applyAll (hd : d.NotesScopes steps) {taken : List Step}
    (hs : ∀ step ∈ taken, step ∈ steps) : (taken.foldl Draft.apply d).NotesScopes steps := by
  induction taken generalizing d with
  | nil => exact hd
  | cons step taken ih =>
    exact ih (hd.apply (hs step (by simp))) fun s hmem => hs s (by simp [hmem])

/-- A rule notes its scopes if the checks among rows that steps bring along keep to its columns. -/
theorem build_notesScopes {name : String} (hr : (ofSteps name steps).build = .ok r)
    (hs : ∀ check, .judgeAmong check ∈ steps → ReadsOthersIn r.columns check) :
    r.NotesScopes := by
  have hd : (ofSteps name steps).NotesScopes steps :=
    NotesScopes.applyAll (d := { name }) nofun fun _ hmem => hmem
  have hb := build_ok hr
  intro v hv
  obtain ⟨styled, w, hmem, rfl⟩ := hb.validators v hv
  cases w with
  | prompt judge => cases styled <;> exact .prompt _
  | delayed start => cases styled <;> exact .delayed _
  | crossRow check =>
    rcases hd styled check hmem with ⟨rfl, column, hscope, rfl⟩ | ⟨rfl, hscope, hstep⟩
    · exact .unique _ column (hb.scopes ▸ hscope)
    · exact .among check (hs check hstep) (hb.scopes ▸ hscope)

end Draft

end CellRules
