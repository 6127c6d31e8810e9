/-
CellRules.Proofs.Watch.InBackground — an edit whose cells are judged in the background.

Timers, slots and delays let the evaluations of one edit end in any order, and each that ends may ask
for others. Still no two of them ever meet on a cell: every evaluation was told to stop before the
edit, and is about to go, or it is the ONLY one that looks after its cell (`Evaluation.Looks`), with
exactly its own entry in the ledger. So none is coalesced, stale or abandoned, and each cell that is
asked for is judged and reported once (`EditAlone.reached_in_background`).
-/
import CellRules.Proofs.Watch.Reach

namespace CellRules.Watch

variable {u : Setup} {grid : Grid} {s s' s₀ : State} {h h₀ : List Happening} {x : Option Happening}
  {e f : Evaluation} {c : Call} {key : CellKey} {row : Nat} {column : String} {before stage : Stage}
  {asked : List CellKey} {l : Ledger}

/-! ## Who looks after a cell -/

/-- The entry of a cell whose only evaluation stands here and is to take over these columns. -/
def Stage.entry (generation : Nat) (fanOut : List String) : Stage → CellState
  | .asked | .armed _ => { current := some ⟨generation, .pending, fanOut⟩ }
  | .spreading _ => { current := some ⟨generation, .running, []⟩, delivered := some generation }
  | _ => { current := some ⟨generation, .running, []⟩ }

/-- The evaluation has taken over the columns of the edit, and judges the cell on the grid of `s₀`. -/
def Stage.OnCourse (u : Setup) (s₀ : State) (row : Nat) (column : String) (key : CellKey) :
    Stage → Prop
  | .asked | .armed _ => True
  | .entering fanOut | .inLine _ fanOut => fanOut = editedAt row column key
  | .running work fanOut => fanOut = editedAt row column key ∧
      ∃ report rows, work.rest.answer = .ok (report, rows) ∧
        (s₀.judging u key).answer = .ok (report, rows)
  | .settled answer fanOut => fanOut = editedAt row column key ∧
      ∃ report rows, answer = .ok (report, rows) ∧ (s₀.judging u key).answer = .ok (report, rows)
  | .spreading keys => ∀ k ∈ keys, k.row ≠ row

/-- The evaluation was told to stop before it began. -/
def Evaluation.Gone (e : Evaluation) : Prop := e.cancelled = true ∧ e.stage.begun = false

/-- The evaluation looks after a cell that was asked for, and no other one does. -/
structure Evaluation.Looks (u : Setup) (s₀ : State) (row : Nat) (column : String)
    (asked : List CellKey) (l : Ledger) (e : Evaluation) : Prop where
  wanted : e.cancelled = false
  known : e.key ∈ asked
  entry : l.find? e.key = some (e.stage.entry e.generation (editedAt row column e.key))
  course : e.stage.OnCourse u s₀ row column e.key

/-- Every evaluation is gone or looks after a cell of these. -/
def State.Manned (u : Setup) (s s₀ : State) (row : Nat) (column : String)
    (asked : List CellKey) : Prop :=
  ∀ e ∈ s.evaluations, e.Gone ∨ e.Looks u s₀ row column asked s.ledger

theorem Stage.generation_entry (g : Nat) (fanOut : List String) (stage : Stage) :
    (stage.entry g fanOut).current.map (·.generation) = some g := by
  cases stage <;> rfl

/-- Evaluations that look after cells look after different ones. -/
theorem Evaluation.Looks.key_ne (he : e.Looks u s₀ row column asked l)
    (hf : f.Looks u s₀ row column asked l) (hne : f.generation ≠ e.generation) : f.key ≠ e.key := by
  intro hkey
  have hentry := hf.entry
  rw [hkey, he.entry] at hentry
  have hgeneration := congrArg (fun c : CellState => c.current.map (·.generation))
    (Option.some.inj hentry)
  simp only [Stage.generation_entry, Option.some.injEq] at hgeneration
  exact hne hgeneration.symm

/-- Once idle, a watch has no evaluations but those that are gone. -/
theorem State.Orderly.gone (ho : s.Orderly) (hidle : s.ledger.isEmpty = true)
    (he : e ∈ s.evaluations) : e.Gone := ho.gone_of_none he (Ledger.find?_of_isEmpty hidle)

namespace State.Manned

variable (hm : s.Manned u s₀ row column asked)

include hm

/-- One that has begun, or that nobody told to stop, looks after its cell. -/
theorem looks (he : e ∈ s.evaluations) (hwhy : e.cancelled = false ∨ e.stage.begun = true) :
    e.Looks u s₀ row column asked s.ledger :=
  (hm e he).resolve_left fun hgone => by
    rcases hwhy with hwhy | hwhy
    · exact absurd (hgone.1.symm.trans hwhy) (by simp)
    · exact absurd (hgone.2.symm.trans hwhy) (by simp)

theorem same (hevaluations : s'.evaluations = s.evaluations) (hledger : s'.ledger = s.ledger) :
    s'.Manned u s₀ row column asked := by
  rw [State.Manned, hevaluations, hledger]
  exact hm

/-- A cell that was not asked for has no entry. -/
theorem free (ho : s.Orderly) (hkey : key ∉ asked) : s.ledger.find? key = none := by
  cases hfind : s.ledger.find? key with
  | none => rfl
  | some c =>
    -- whoever keeps the entry busy looks after the cell
    obtain ⟨e, he, rfl, hlooks⟩ : ∃ e ∈ s.evaluations, e.key = key ∧
        (e.cancelled = false ∨ e.stage.begun = true) := by
      rcases (ho.fits key).busy c hfind with hcurrent | holder
      · obtain ⟨r, hr⟩ := Option.ne_none_iff_exists'.mp hcurrent
        obtain ⟨e, he, hkey, hstanding⟩ :=
          State.mem_standingsOf.mp ((ho.fits key).current c r hfind hr)
        exact ⟨e, he, hkey, .inl (congrArg Standing.cancelled hstanding)⟩
      · rw [(ho.fits key).superseded c hfind, older, ← Nat.pos_iff_ne_zero,
          List.countP_pos_iff] at holder
        obtain ⟨y, hy, hbegun⟩ := holder
        obtain ⟨e, he, hkey, rfl⟩ := State.mem_standingsOf.mp hy
        exact ⟨e, he, hkey, .inr (Bool.and_eq_true_iff.mp hbegun).1⟩
    exact absurd (hm.looks he hlooks).known hkey

/-- An evaluation that looks after its cell moves on. -/
theorem moved (he : e.Looks u s₀ row column asked s.ledger)
    (hevaluations : s'.evaluations = (s.setStage e stage).evaluations)
    (hentry : s'.ledger.find? e.key = some (stage.entry e.generation (editedAt row column e.key)))
    (hothers : ∀ key, key ≠ e.key → s'.ledger.find? key = s.ledger.find? key)
    (hcourse : stage.OnCourse u s₀ row column e.key) : s'.Manned u s₀ row column asked := by
  intro f hf
  rw [hevaluations] at hf
  rcases State.mem_setStage.mp hf with ⟨hf, hne⟩ | ⟨rfl, -⟩
  · refine (hm f hf).imp_right fun hlooks => { hlooks with entry := ?_ }
    rw [hothers f.key (he.key_ne hlooks hne)]
    exact hlooks.entry
  · exact .inr ⟨he.wanted, he.known, hentry, hcourse⟩

/-- An evaluation that is gone stays so. -/
theorem movedGone (he : e.Gone) (hevaluations : s'.evaluations = (s.setStage e stage).evaluations)
    (hledger : s'.ledger = s.ledger) (hbegun : stage.begun = false) :
    s'.Manned u s₀ row column asked := by
  intro f hf
  rw [hevaluations] at hf
  rw [hledger]
  rcases State.mem_setStage.mp hf with ⟨hf, -⟩ | ⟨rfl, -⟩
  · exact hm f hf
  · exact .inl ⟨he.1, hbegun⟩

/-- An evaluation goes. -/
theorem dropped (hevaluations : s'.evaluations = (s.dropEvaluation e).evaluations)
    (hothers : ∀ f ∈ s.evaluations, f.generation ≠ e.generation →
      f.Looks u s₀ row column asked s.ledger → s'.ledger.find? f.key = s.ledger.find? f.key) :
    s'.Manned u s₀ row column asked := by
  intro f hf
  rw [hevaluations] at hf
  obtain ⟨hf, hne⟩ := State.mem_dropEvaluation.mp hf
  refine (hm f hf).imp_right fun hlooks => { hlooks with entry := ?_ }
  rw [hothers f hf hne hlooks]
  exact hlooks.entry

/-- A cell that nobody looks after is asked for. -/
theorem schedule (hopen : s.closed = false) (hfree : s.ledger.find? key = none) :
    (s.schedule u key (editedAt row column key)).Manned u s₀ row column (asked ++ [key]) := by
  have hledger : (s.schedule u key (editedAt row column key)).ledger
      = s.ledger.request key s.nextGeneration (editedAt row column key) :=
    (State.schedule_alike hopen key _).ledger
  intro f hf
  rw [State.evaluations_schedule hopen hfree] at hf
  rw [hledger]
  rcases List.mem_append.mp hf with hf | hf
  · refine (hm f hf).imp_right fun hlooks =>
      { hlooks with known := List.mem_append_left _ hlooks.known, entry := ?_ }
    have hne : f.key ≠ key := by
      rintro rfl
      have hentry := hlooks.entry
      rw [hfree] at hentry
      cases hentry
    rw [Ledger.find?_request_of_ne hne]
    exact hlooks.entry
  · obtain rfl := List.mem_singleton.mp hf
    refine .inr ⟨rfl, List.mem_append_right _ (List.mem_singleton.mpr rfl), ?_, trivial⟩
    rw [Ledger.find?_request_self, hfree]
    rfl

end State.Manned

/-! ## Every step brings the edit on its way -/

/-- The call has its answer, or it asks for cells of the edited row. -/
def CallStage.Asks (row : Nat) (column : String) (stage : CallStage) : Prop :=
  stage.over = true ∨ ∃ todo, stage = .editing column todo none ∧ ∀ job ∈ todo, job.key.row = row

/-- An edit told in `s₀` is on its way in a watch that judges in the background: its evaluations each
look after a cell, and calls do no more than ask for the cells of the edited row. -/
structure InBackground (u : Setup) (s₀ : State) (row : Nat) (column : String)
    (h : List Happening) (s : State) : Prop extends Reaching u s₀ row column h s where
  manned : s.Manned u s₀ row column (deeds .ask h)
  calls : ∀ c ∈ s.calls, c.stage.Asks row column

theorem Evaluation.owes_of_wanted (trail : CellKey → List CellKey) (d : Deed)
    (hwanted : e.cancelled = false) (stage : Stage) :
    ({ e with stage } : Evaluation).owes trail d = stage.owes d e.key (trail e.key) := by
  simp [owes, hwanted]

/-- An evaluation that nobody told to stop does what it owes at its stage, and moves on. -/
theorem State.Orderly.owes_paid (ho : s.Orderly) (he : e ∈ s.evaluations)
    (hwanted : e.cancelled = false) {trail : CellKey → List CellKey} {d : Deed} {l : List CellKey}
    (hpaid : (l ++ stage.owes d e.key (trail e.key)).Perm (e.stage.owes d e.key (trail e.key))) :
    (l ++ (s.setStage e stage).owes trail d).Perm (s.owes trail d) := by
  refine ho.owes_moved he ?_
  rw [e.owes_of_wanted trail d hwanted stage]
  exact hpaid.trans (.of_eq (e.owes_of_wanted trail d hwanted e.stage).symm)

namespace InBackground

variable (hb : InBackground u s₀ row column h s) (ho : s.Orderly) (he : e ∈ s.evaluations)

include hb

/-- What evaluations do leaves calls as they are. -/
theorem callsKept (hcalls : s'.calls = s.calls) : ∀ c ∈ s'.calls, c.stage.Asks row column :=
  hcalls ▸ hb.calls

include ho he

/-- An evaluation that looks after its cell moves on, and reports nothing. -/
theorem moved (hlooks : e.Looks u s₀ row column (deeds .ask h) s.ledger)
    (hevaluations : s'.evaluations = (s.setStage e stage).evaluations) (hcalls : s'.calls = s.calls)
    (hgrid : s'.grid = s.grid) (hflagged : s'.flagged = s.flagged)
    (hdeliveries : s'.deliveries = s.deliveries)
    (hnothing : deeds .ask x.toList = [] ∧ deeds .report x.toList = [])
    (hpaid : ∀ d trail, (deeds d x.toList ++ stage.owes d e.key trail).Perm
      (e.stage.owes d e.key trail))
    (hentry : s'.ledger.find? e.key = some (stage.entry e.generation (editedAt row column e.key)))
    (hothers : ∀ key, key ≠ e.key → s'.ledger.find? key = s.ledger.find? key)
    (hcourse : stage.OnCourse u s₀ row column e.key) :
    InBackground u s₀ row column (h ++ x.toList) s' where
  toReaching := by
    refine hb.toReaching.goes hgrid hflagged hdeliveries hnothing.2 fun d => ?_
    rw [State.owes_congr hevaluations hcalls]
    exact ho.owes_paid he hlooks.wanted (hpaid d _)
  manned := by
    rw [deeds_append, hnothing.1, List.append_nil]
    exact hb.manned.moved hlooks hevaluations hentry hothers hcourse
  calls := hb.callsKept hcalls

omit ho in
/-- One that has begun looks after its cell, in the way of its stage. -/
theorem looksAt (hstage : e.stage = before) (hbegun : before.begun = true) :
    e.Looks u s₀ row column (deeds .ask h) s.ledger ∧
      s.ledger.find? e.key = some (before.entry e.generation (editedAt row column e.key)) ∧
      before.OnCourse u s₀ row column e.key := by
  subst hstage
  have hlooks := hb.manned.looks he (.inr hbegun)
  exact ⟨hlooks, hlooks.entry, hlooks.course⟩

/-- One that looks after its cell moves on and leaves the ledger alone. -/
theorem movedOn (hstage : e.stage = before)
    (hlooks : e.Looks u s₀ row column (deeds .ask h) s.ledger) (hs : s'.Alike (s.setStage e stage))
    (hnothing : deeds .ask x.toList = [] ∧ deeds .report x.toList = [])
    (hpaid : ∀ d trail, (deeds d x.toList ++ stage.owes d e.key trail).Perm
      (before.owes d e.key trail))
    (hentry : ∀ g fanOut, stage.entry g fanOut = before.entry g fanOut)
    (hcourse : stage.OnCourse u s₀ row column e.key) :
    InBackground u s₀ row column (h ++ x.toList) s' := by
  subst hstage
  have hledger : s'.ledger = s.ledger := hs.ledger
  refine hb.moved ho he hlooks hs.evaluations hs.calls hs.grid hs.flagged hs.deliveries hnothing
    hpaid ?_ (fun _ _ => by rw [hledger]) hcourse
  rw [hledger, hentry]
  exact hlooks.entry

/-- One that is gone moves on. -/
theorem movedGone (hgone : e.Gone) (hs : s'.Alike (s.setStage e stage))
    (hbegun : stage.begun = false) : InBackground u s₀ row column h s' where
  toReaching := by
    have hgoes := hb.toReaching.goes (x := none) hs.grid hs.flagged hs.deliveries rfl
      fun d => ?_
    · simpa using hgoes
    · rw [State.owes_congr hs.evaluations hs.calls]
      exact ho.owes_moved he (by simp [deeds, Evaluation.owes, hgone.1])
  manned := hb.manned.movedGone hgone hs.evaluations hs.ledger hbegun
  calls := hb.callsKept hs.calls

/-- One that owes nothing goes. -/
theorem dropped (hevaluations : s'.evaluations = (s.dropEvaluation e).evaluations)
    (hcalls : s'.calls = s.calls) (hgrid : s'.grid = s.grid) (hflagged : s'.flagged = s.flagged)
    (hdeliveries : s'.deliveries = s.deliveries)
    (hnothing : ∀ d, e.owes (s₀.trail u row column) d = [])
    (hothers : ∀ f ∈ s.evaluations, f.generation ≠ e.generation →
      f.Looks u s₀ row column (deeds .ask h) s.ledger →
        s'.ledger.find? f.key = s.ledger.find? f.key) : InBackground u s₀ row column h s' where
  toReaching := by
    have hgoes := hb.toReaching.goes (x := none) hgrid hflagged hdeliveries rfl
      fun d => ?_
    · simpa using hgoes
    · rw [State.owes_congr hevaluations hcalls]
      exact ho.owes_dropped he (hnothing d)
  manned := hb.manned.dropped hevaluations hothers
  calls := hb.callsKept hcalls

omit hb in
/-- What an evaluation that looks after its cell owes, the watch owes. -/
theorem owed (d : Deed) (hlooks : e.Looks u s₀ row column (deeds .ask h) s.ledger) (k : CellKey)
    (hk : k ∈ e.stage.owes d e.key (s₀.trail u row column e.key)) :
    k ∈ s.owes (s₀.trail u row column) d := by
  refine (ho.owes_drop _ d he).mem_iff.mpr (List.mem_append_left _ ?_)
  rwa [e.owes_of_wanted _ d hlooks.wanted e.stage]

/-- An evaluation that is settled reports its cell, and sets out for the cells that follow. -/
theorem reported {ledger : Ledger} {fanOut : List String} {report : CellReport} {rows : Dataset}
    (hstage : e.stage = .settled (.ok (report, rows)) fanOut)
    (hclaim : s.ledger.claim? e.key e.generation = some ledger)
    (hs : s'.Alike (({ s with ledger }.deliver u report).setStage e
      (.spreading (({ s with ledger }.deliver u report).peers u e.key fanOut rows)))) :
    InBackground u s₀ row column
      (h ++ [.reported (.evaluation e.generation) e.key report.verdict]) s' := by
  obtain ⟨hlooks, hentry, rfl, _, _, hanswer, hanswer₀⟩ := hb.looksAt he hstage rfl
  obtain ⟨rfl, rfl⟩ := Prod.mk.inj (Except.ok.inj hanswer)
  have hledger : s'.ledger = ledger := hs.ledger
  have hevaluations : s'.evaluations = (s.setStage e (.spreading
      ((s.deliver u report).peers u e.key (editedAt row column e.key) rows))).evaluations :=
    hs.evaluations
  have hcalls : s'.calls = s.calls := hs.calls
  have hfollow := hb.toReaching.perm_trail (fun k hk => owed ho he .report hlooks k (by
    rwa [hstage])) hanswer₀
  refine ⟨hb.toReaching.reports hanswer₀ hs.grid hs.flagged hs.deliveries fun d => ?_, ?_,
    hb.callsKept hcalls⟩
  · rw [State.owes_congr hevaluations hcalls]
    refine ho.owes_paid he hlooks.wanted ?_
    rw [hstage]
    cases d with
    | ask | look => exact hfollow
    | report => exact hfollow.cons _
  · have hasked : deeds .ask
        (h ++ [.reported (.evaluation e.generation) e.key report.verdict]) = deeds .ask h := by
      simp [deeds, Happening.deed?]
    obtain ⟨c, hfind, -, rfl⟩ := Ledger.claim?_eq_some.mp hclaim
    obtain rfl := Option.some.inj (hfind.symm.trans hentry)
    rw [hasked]
    refine hb.manned.moved hlooks hevaluations ?_ (fun key hne => ?_) fun k hk => ?_
    · rw [hledger, Ledger.find?_set_self]
      rfl
    · rw [hledger, Ledger.find?_set_of_ne hne]
    · exact (State.of_mem_trail (hfollow.mem_iff.mp hk)).2.1

/-- An evaluation asks for a cell that follows. -/
theorem spread (hopen : s.closed = false) {keys : List CellKey}
    (hstage : e.stage = .spreading (key :: keys))
    (hs : s'.Alike ((s.schedule u key []).setStage e (.spreading keys))) :
    InBackground u s₀ row column
      (h ++ [.asked (.evaluation e.generation) key s.nextGeneration []]) s' := by
  obtain ⟨hlooks, -, hcourse⟩ := hb.looksAt he hstage rfl
  have hrow : key.row ≠ row := hcourse key (by simp)
  have hfree := hb.manned.free ho (hb.toReaching.not_asked (owed ho he .ask hlooks key (by
    rw [hstage]
    exact List.mem_cons_self)))
  have halike := State.schedule_alike (u := u) hopen key []
  have hedited : editedAt row column key = [] := if_neg hrow
  -- the evaluation is as it was, beside the new one
  have hasked := ho.schedule (u := u) hopen key []
  have hmem := ho.mem_schedule (u := u) hopen he hstage
  have hmanned : (s.schedule u key []).Manned u s₀ row column (deeds .ask h ++ [key]) := by
    have hscheduled := hb.manned.schedule (u := u) hopen hfree
    rwa [hedited] at hscheduled
  have hlooks' := hmanned.looks hmem (.inr (by rw [hstage]; rfl))
  refine ⟨hb.toReaching.goes (x := some (.asked (.evaluation e.generation) key s.nextGeneration []))
    (hs.grid.trans halike.grid) (hs.flagged.trans halike.flagged)
    (hs.deliveries.trans halike.deliveries) rfl fun d => ?_, ?_,
    hb.callsKept (hs.calls.trans halike.calls)⟩
  · rw [State.owes_congr hs.evaluations hs.calls]
    have hnew := State.owes_schedule (u := u) (s₀.trail u row column) d hopen hfree []
    have hbefore := hasked.owes_drop (s₀.trail u row column) d hmem
    have hafter := hasked.owes_setStage (s₀.trail u row column) d hmem (.spreading keys)
    rw [e.owes_of_wanted _ d hlooks.wanted e.stage, hstage] at hbefore
    rw [e.owes_of_wanted _ d hlooks.wanted] at hafter
    rw [State.trail_of_ne hrow] at hnew
    refine (hafter.append_left _).trans ?_
    have hwhole := hnew.symm.trans hbefore
    cases d with
    | ask => exact hwhole.symm
    | look | report => exact (hwhole.cons_inv).symm
  · have hdeeds : deeds .ask (h ++ [.asked (.evaluation e.generation) key s.nextGeneration []])
        = deeds .ask h ++ [key] := deeds_append _ _ _
    rw [hdeeds]
    refine hmanned.moved hlooks' hs.evaluations ?_ (fun k _ => congrArg (·.find? k) hs.ledger)
      fun k hk => hcourse k (List.mem_cons_of_mem _ hk)
    have hentry := hlooks'.entry
    rw [hstage] at hentry
    exact (congrArg (·.find? e.key) hs.ledger).trans hentry

end InBackground

/-- Whatever an evaluation does brings the edit on its way. -/
theorem InBackground.course (hb : InBackground u s₀ row column h s) (ho : s.Orderly)
    (hopen : s.closed = false) (hknown : s.evaluation? e.generation = some e)
    (hcourse : Course u s e x s')
    (hjudged : ∀ key ∈ deeds .look x.toList,
      ∃ report rows, (s₀.judging u key).answer = .ok (report, rows)) :
    InBackground u s₀ row column (h ++ x.toList) s' := by
  have he := State.mem_of_evaluation? hknown
  cases hcourse with
  | arm hstage hs _ =>
    rcases hb.manned e he with hgone | hlooks
    · rw [Option.toList_none, List.append_nil]
      exact hb.movedGone ho he hgone hs rfl
    · exact hb.movedOn ho he hstage hlooks hs ⟨rfl, rfl⟩ (fun _ _ => .refl _) (fun _ _ => rfl)
        trivial
  | discard hstage hwhy hs =>
    rw [Option.toList_none, List.append_nil]
    rcases hb.manned e he with hgone | hlooks
    · exact hb.dropped ho he hs.evaluations hs.calls hs.grid hs.flagged hs.deliveries
        (fun d => if_pos hgone.1) fun f _ _ _ => congrArg (·.find? f.key) hs.ledger
    · -- the only evaluation of a cell is its newest one
      rcases hwhy with hwhy | hwhy
      · exact absurd (hlooks.wanted.symm.trans hwhy) (by simp)
      · obtain ⟨r, hr, hg⟩ := Option.map_eq_some_iff.mp
          (Stage.generation_entry e.generation (editedAt row column e.key) e.stage)
        exact absurd hg (Ledger.begin?_eq_none hwhy r
          ((Ledger.current?_of_find? hlooks.entry).trans hr))
  | @begin _ due fanOut ledger hstage hwanted hbegin hs _ =>
    have hlooks := hb.manned.looks he (.inl hwanted)
    have hledger : s'.ledger = ledger := hs.ledger
    obtain ⟨c, phase, hfind, hcurrent, rfl⟩ := Ledger.begin?_eq_some.mp hbegin
    have hentry := hlooks.entry
    rw [hstage] at hentry
    obtain rfl := Option.some.inj (hfind.symm.trans hentry)
    obtain ⟨-, -, rfl⟩ := Request.mk.inj (Option.some.inj hcurrent)
    refine hb.moved ho he hlooks hs.evaluations hs.calls hs.grid hs.flagged hs.deliveries
      ⟨rfl, rfl⟩ (fun d trail => ?_) ?_ (fun key hne => ?_) rfl
    · rw [hstage]
      cases d <;> exact .refl _
    · rw [hledger, Ledger.find?_set_self]
      rfl
    · rw [hledger, Ledger.find?_set_of_ne hne]
  | queue hstage hs =>
    obtain ⟨hlooks, -, hcourse⟩ := hb.looksAt he hstage rfl
    exact hb.movedOn ho he hstage hlooks hs ⟨rfl, rfl⟩ (fun _ _ => .refl _) (fun _ _ => rfl) hcourse
  | @read _ fanOut hstage hs =>
    have hnext : fanOut = editedAt row column e.key →
        (Stage.running (.working (s.judging u e.key)) fanOut).OnCourse u s₀ row column e.key := by
      obtain ⟨report, rows, hanswer⟩ := hjudged e.key (List.mem_singleton.mpr rfl)
      refine fun hfanOut => ⟨hfanOut, report, rows, ?_, hanswer⟩
      rw [State.judging_congr hb.grid]
      exact hanswer
    have hread : ∀ d trail, (deeds d [Happening.read (.evaluation e.generation) e.key] ++
        (Stage.running (.working (s.judging u e.key)) fanOut).owes d e.key trail).Perm
          ((Stage.entering fanOut).owes d e.key trail) := fun d _ => by cases d <;> exact .refl _
    rcases hstage with hstage | ⟨ticket, hstage⟩
    · obtain ⟨hlooks, -, hfanOut⟩ := hb.looksAt he hstage rfl
      exact hb.movedOn ho he hstage hlooks hs ⟨rfl, rfl⟩ hread (fun _ _ => rfl) (hnext hfanOut)
    · obtain ⟨hlooks, -, hfanOut⟩ := hb.looksAt he hstage rfl
      exact hb.movedOn ho he hstage hlooks hs ⟨rfl, rfl⟩ hread (fun _ _ => rfl) (hnext hfanOut)
  | giveUp hstage hwhy hs =>
    have hlooks := hb.manned.looks he (.inr (by
      rcases hstage with hstage | ⟨ticket, hstage⟩ <;> (rw [hstage]; rfl)))
    exact absurd (hlooks.wanted.symm.trans hwhy) (by simp)
  | work hstage hkept hs =>
    obtain ⟨hlooks, -, hedited, report, rows, hanswer, hanswer₀⟩ := hb.looksAt he hstage rfl
    exact hb.movedOn ho he hstage hlooks hs ⟨rfl, rfl⟩ (fun _ _ => .refl _) (fun _ _ => rfl)
      ⟨hedited, report, rows, hkept.trans hanswer, hanswer₀⟩
  | stop hstage hkept hs =>
    obtain ⟨hlooks, -, hedited, report, rows, hanswer, hanswer₀⟩ := hb.looksAt he hstage rfl
    have hkept := hkept.resolve_right (by simp [hlooks.wanted])
    exact hb.movedOn ho he hstage hlooks hs ⟨rfl, rfl⟩ (fun _ _ => .refl _) (fun _ _ => rfl)
      ⟨hedited, report, rows, hkept.trans hanswer, hanswer₀⟩
  | report hstage hwanted hclaim hs => exact hb.reported ho he hstage hclaim hs
  | ignore hstage hwhy hs =>
    -- nothing newer was delivered on the cell
    obtain ⟨hlooks, hentry, -⟩ := hb.looksAt he hstage rfl
    rcases hwhy with hwhy | hwhy
    · exact absurd (hlooks.wanted.symm.trans hwhy) (by simp)
    · obtain ⟨d, hd, -⟩ := Ledger.claim?_eq_none hwhy hentry
      cases hd
  | fail hstage hwanted hs =>
    obtain ⟨-, -, -, _, _, hanswer, -⟩ := hb.looksAt he hstage rfl
    cases hanswer
  | spread hstage hs => exact hb.spread ho he hopen hstage hs
  | finish hstage hs =>
    obtain ⟨hlooks, -⟩ := hb.looksAt he hstage rfl
    rw [Option.toList_none, List.append_nil]
    refine hb.dropped ho he hs.evaluations hs.calls hs.grid hs.flagged hs.deliveries
      (fun d => ?_) fun f _ hne hf => ?_
    · refine (e.owes_of_wanted (s₀.trail u row column) d hlooks.wanted e.stage).trans ?_
      rw [hstage]
      rfl
    · have hledger : s'.ledger = s.ledger.finish e.key e.generation := hs.ledger
      rw [hledger, Ledger.find?_finish_of_ne (hlooks.key_ne hf hne)]

/-- A call asks for a cell of the edited row. -/
theorem InBackground.ask (hb : InBackground u s₀ row column h s) (ho : s.Orderly)
    (hn : s.Numbered) (hopen : s.closed = false) (hknown : s.call? c.id = some c) {edited : String}
    {job : Job} {todo : List Job} (hstage : c.stage = .editing edited (job :: todo) none)
    (hs : s'.Alike (Call.goTo (s.schedule u job.key [edited]) c (.editing edited todo none))) :
    InBackground u s₀ row column
      (h ++ [.asked (.call c.id) job.key s.nextGeneration [edited]]) s' := by
  have hmem := State.mem_of_call? hknown
  obtain ⟨hedited, hrows⟩ : edited = column ∧ ∀ j ∈ job :: todo, j.key.row = row := by
    rcases hb.calls c hmem with hover | ⟨jobs, hat, hrows⟩
    · rw [hstage] at hover
      cases hover
    · rw [hstage] at hat
      cases hat
      exact ⟨rfl, hrows⟩
  subst hedited
  have hcolumns : editedAt row edited job.key = [edited] := if_pos (hrows job (by simp))
  have hpaid : ∀ d trail, ((job.key :: trail job.key) ++
      (CallStage.editing edited todo none).owes trail d).Perm (c.stage.owes trail d) :=
    fun d trail => by rw [hstage]; exact .refl _
  have howed : job.key ∈ s.owes (s₀.trail u row edited) .ask := by
    refine List.mem_append_right _ (List.mem_flatMap.mpr ⟨c, hmem, ?_⟩)
    rw [hstage]
    exact List.mem_cons_self
  have hfree := hb.manned.free ho (hb.toReaching.not_asked howed)
  have halike := State.schedule_alike (u := u) hopen job.key [edited]
  refine ⟨hb.toReaching.goes
    (x := some (.asked (.call c.id) job.key s.nextGeneration [edited])) (hs.grid.trans halike.grid)
    (hs.flagged.trans halike.flagged) (hs.deliveries.trans halike.deliveries) rfl
    fun d => ?_, ?_, fun f hf => ?_⟩
  · -- what the call no longer owes, the new evaluation does, but for the asking
    have hmoved := (hn.congr halike.calls).owes_goTo (halike.calls ▸ hmem)
      (hpaid d (s₀.trail u row edited))
    have hwhole := hmoved.trans
      (State.owes_schedule (u := u) (s₀.trail u row edited) d hopen hfree [edited])
    rw [State.owes_congr hs.evaluations hs.calls]
    cases d with
    | ask =>
      rw [← List.perm_append_left_iff (s₀.trail u row edited job.key)]
      exact List.perm_middle.trans hwhole
    | look | report => exact (List.perm_append_left_iff _).mp hwhole
  · have hdeeds : deeds .ask (h ++ [.asked (.call c.id) job.key s.nextGeneration [edited]])
        = deeds .ask h ++ [job.key] := deeds_append _ _ _
    rw [hdeeds]
    have hmanned := hb.manned.schedule (u := u) hopen hfree
    rw [hcolumns] at hmanned
    exact hmanned.same hs.evaluations hs.ledger
  · rw [hs.calls] at hf
    rcases State.mem_goTo.mp hf with ⟨hf, -⟩ | ⟨rfl, -⟩
    · exact hb.calls f (halike.calls ▸ hf)
    · exact .inr ⟨todo, rfl, fun j hj => hrows j (List.mem_cons_of_mem _ hj)⟩

/-- While nothing comes from outside, every step brings the edit on its way. -/
theorem InBackground.step (hb : InBackground u s₀ row column h s) (ho : s.Orderly)
    (hn : s.Numbered) (hopen : s.closed = false) (hopen' : s'.closed = false)
    (heffect : Effect u s x s') (halone : ∀ y ∈ x.toList, y.fromOutside = false)
    (hjudged : ∀ key ∈ deeds .look x.toList,
      ∃ report rows, (s₀.judging u key).answer = .ok (report, rows)) :
    InBackground u s₀ row column (h ++ x.toList) s' := by
  cases heffect with
  | course hknown hcourse => exact hb.course ho hopen hknown hcourse hjudged
  | ask hknown hstage hs => exact hb.ask ho hn hopen hknown hstage hs
  | @call c _ _ hknown hcourse =>
    have hmem := State.mem_of_call? hknown
    obtain ⟨rfl, ⟨edited, hstage⟩, hs⟩ := hcourse.answers (by
      rcases hb.calls c hmem with hover | ⟨_, hat, -⟩
      · exact .inl hover
      · exact .inr (by rw [hat]; rfl))
    rw [Option.toList_none, List.append_nil]
    refine ⟨hb.toReaching.answers hn hmem hstage hs, hb.manned.same hs.evaluations hs.ledger,
      fun f hf => ?_⟩
    rw [hs.calls] at hf
    rcases State.mem_goTo.mp hf with ⟨hf, -⟩ | ⟨rfl, -⟩
    · exact hb.calls f hf
    · exact .inl rfl
  | outside hout =>
    cases hout with
    | wait hs =>
      rw [Option.toList_none, List.append_nil]
      exact ⟨hb.toReaching.still hs, hb.manned.same hs.evaluations hs.ledger, hb.callsKept hs.calls⟩
    | write | push | tell | askAll =>
      have hinner := halone _ (List.mem_singleton.mpr rfl)
      cases hinner
  | close hclosed =>
    subst hclosed
    cases hopen'

/-- An edit in a watch that judges in the background reaches what it is to reach, and in the end
nothing is owed any more. -/
theorem EditAlone.reached_in_background (background : u.ruleSet.throttle.background = true)
    (hedit : EditAlone u grid row column s₀ h s) :
    Reaching u s₀ row column h s ∧ ∀ d, s.owes (s₀.trail u row column) d = [] := by
  obtain ⟨h₀, before, told⟩ := hedit.told
  have hgone : ∀ e ∈ s₀.evaluations, e.Gone := fun e he =>
    (before.lawful background hedit.idle.isOpen).orderly.gone hedit.idle.pending he
  have hlast : InBackground u s₀ row column h s := by
    refine hedit.induction ⟨.start hedit.idle fun e he => (hgone e he).1,
      fun e he => .inl (hgone e he), fun c hc => (hedit.idle.calls hc).imp_right fun hstage => ?_⟩ ?_
    · refine ⟨_, hstage, fun job hjob => ?_⟩
      obtain ⟨c, -, rfl⟩ := List.mem_map.mp hjob
      rfl
    · intro h₁ h₂ s₁ m s₂ hrun hopen₁ hopen₂ hm halone hjudged hb
      obtain ⟨hlaw, heffect⟩ := hrun.lawful_step background hopen₁ ⟨m, hm, rfl⟩
      exact hb.step hlaw.orderly (hrun.booked hopen₁).1.tidy.ids hopen₁ hopen₂ heffect halone
        hjudged
  have hlaw := (told.trans hedit.editing).lawful background hedit.rest.isOpen
  exact ⟨hlast.toReaching, fun d => State.owes_of_idle
    (fun e he => (hlaw.orderly.gone hedit.rest.pending he).1) hedit.rest.answered⟩

end CellRules.Watch
