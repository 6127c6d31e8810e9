/-
CellRules.Proofs.Watch.Spread — how the columns of an edit reach the cells of other rows.

Until an evaluation of the cell begins, the edited columns wait in the entry of the cell, and a
newer request takes them over. The evaluation that begins TAKES them out of the entry. From then on
they are with that evaluation alone: once it has reported, it asks for the cells of other rows on
their account (`Run.spreads`), and if it is dropped nobody does.

* `Run.taken` — on a cell at rest, the columns of every edit were taken by some evaluation.
* `CarriedOut` — that evaluation read the grid after the edit, reported, and asked for the cells of
  other rows that the edit concerns.
* `fanOut_carried_out_iff` — it does so EXACTLY if it was not dropped.
-/
import CellRules.Check.Unique
import CellRules.Proofs.Watch.Fate
import CellRules.Proofs.Watch.Freshest
import CellRules.Proofs.Watch.Threads.Dropped

namespace CellRules.Watch

variable {u : Setup} {grid : Grid} {s s' : State} {h h₁ h₂ : List Happening}
  {x : Option Happening} {key : CellKey} {g : Nat} {column : String} {fanOut : List String}

/-- An evaluation of the cell began with the column among those it took over. -/
def Took (h : List Happening) (key : CellKey) (generation : Nat) (column : String) : Prop :=
  ∃ fanOut, .began key generation fanOut ∈ h ∧ column ∈ fanOut

/-- The column waits in the entry of the cell for the next evaluation to begin. -/
def State.Awaits (s : State) (key : CellKey) (column : String) : Prop :=
  ∃ r, s.ledger.current? key = some r ∧ r.phase = .pending ∧ column ∈ r.fanOut

theorem Took.mono (ht : Took h₁ key g column) (hsub : h₁ ⊆ h) : Took h key g column := by
  obtain ⟨fanOut, hmem, hcolumn⟩ := ht
  exact ⟨fanOut, hsub hmem, hcolumn⟩

/-! ## Waiting for an evaluation to begin -/

/-- A request that waits is taken over by the next one. -/
theorem Ledger.awaits_request {l : Ledger} {other : CellKey} {r : Request} (generation : Nat)
    (columns : List String) (hr : l.current? key = some r) (hp : r.phase = .pending) :
    ∃ r', (l.request other generation columns).current? key = some r' ∧ r'.phase = .pending ∧
      ∀ c ∈ r.fanOut, c ∈ r'.fanOut := by
  obtain ⟨entry, hfind, hcur⟩ := Ledger.current?_eq_some.mp hr
  by_cases hkey : key = other
  · subst hkey
    refine ⟨⟨generation, .pending, Ascending.addAll columns r.fanOut⟩, ?_, rfl, fun c hc =>
      Ascending.mem_addAll.mpr (.inr hc)⟩
    rw [Ledger.current?_of_find? Ledger.find?_request_self, hfind]
    simp [CellState.request, hcur, hp]
  · refine ⟨r, ?_, hp, fun c hc => hc⟩
    rw [Ledger.current?_of_find? ((Ledger.find?_request_of_ne hkey).trans hfind), hcur]

/-- What is asked for waits with its columns. -/
theorem Ledger.awaits_asked (l : Ledger) (key : CellKey) (generation : Nat)
    (columns : List String) :
    ∃ r, (l.request key generation columns).current? key = some r ∧ r.phase = .pending ∧
      ∀ c ∈ columns, c ∈ r.fanOut := by
  rw [Ledger.current?_of_find? Ledger.find?_request_self]
  cases hcur : ((l.find? key).getD {}).current with
  | none =>
    exact ⟨⟨generation, .pending, columns⟩, by simp [CellState.request, hcur], rfl, fun c hc => hc⟩
  | some old =>
    cases hp : old.phase with
    | pending =>
      exact ⟨⟨generation, .pending, Ascending.addAll columns old.fanOut⟩,
        by simp [CellState.request, hcur, hp], rfl, fun c hc => Ascending.mem_addAll.mpr (.inl hc)⟩
    | running =>
      exact ⟨⟨generation, .pending, columns⟩, by simp [CellState.request, hcur, hp], rfl,
        fun c hc => hc⟩

/-- The newest evaluation of a cell that has begun is entered as running. -/
theorem State.Orderly.running_of_begun {e : Evaluation} (ho : s.Orderly) (he : e ∈ s.evaluations)
    (hbegun : e.stage.begun = true) {r : Request} (hr : s.ledger.current? e.key = some r)
    (hg : r.generation = e.generation) : r.phase = .running := by
  obtain ⟨entry, hfind, hcur⟩ := Ledger.current?_eq_some.mp hr
  have hfits := ho.fits e.key
  rw [hfind] at hfits
  have hphase := (hfits.begun_of_current (ho.pairwise_standingsOf _) hcur
    (State.standing_mem he) hg.symm).2
  rw [Evaluation.standing, hbegun] at hphase
  exact eq_of_beq hphase.symm

/-- What a step may do to the entry of a cell: another evaluation is asked for, the newest one
begins, or one that has begun claims the delivery or finishes. -/
theorem Effect.entry (hopen : s.closed = false) (hopen' : s'.closed = false)
    (heffect : Effect u s x s') (key : CellKey) :
    s'.ledger.find? key = s.ledger.find? key ∨
      (∃ asker fanOut, x = some (.asked asker key s.nextGeneration fanOut) ∧
        s'.ledger = s.ledger.request key s.nextGeneration fanOut) ∨
      (∃ g fanOut, x = some (.began key g fanOut) ∧
        s.ledger.begin? key g = some (fanOut, s'.ledger)) ∨
      ∃ e ∈ s.evaluations, e.key = key ∧ e.stage.begun = true ∧
        (s'.ledger.current? key = s.ledger.current? key ∨
          s'.ledger.current? key = none ∧
            ∃ r, s.ledger.current? key = some r ∧ r.generation = e.generation) := by
  have hrequest : ∀ {asker : Task} {other : CellKey} {fanOut : List String},
      x = some (.asked asker other s.nextGeneration fanOut) →
      s'.ledger = s.ledger.request other s.nextGeneration fanOut →
      s'.ledger.find? key = s.ledger.find? key ∨
        ∃ asker fanOut, x = some (.asked asker key s.nextGeneration fanOut) ∧
          s'.ledger = s.ledger.request key s.nextGeneration fanOut := by
    intro asker other fanOut hx hledger
    by_cases hkey : key = other
    · subst hkey
      exact .inr ⟨asker, fanOut, hx, hledger⟩
    · exact .inl (by rw [hledger, Ledger.find?_request_of_ne hkey])
  cases heffect with
  | @course e _ _ hknown hcourse =>
    have he := State.mem_of_evaluation? hknown
    have hfinish : e.stage.begun = true → s'.ledger = s.ledger.finish e.key e.generation →
        s'.ledger.find? key = s.ledger.find? key ∨
          ∃ e ∈ s.evaluations, e.key = key ∧ e.stage.begun = true ∧
            (s'.ledger.current? key = s.ledger.current? key ∨
              s'.ledger.current? key = none ∧
                ∃ r, s.ledger.current? key = some r ∧ r.generation = e.generation) := by
      intro hbegun hledger
      by_cases hkey : key = e.key
      · subst hkey
        refine .inr ⟨e, he, rfl, hbegun, ?_⟩
        rw [hledger]
        exact (s.ledger.current?_finish e.key e.key e.generation).imp id (·.2)
      · exact .inl (by rw [hledger, Ledger.find?_finish_of_ne hkey])
    cases hcourse with
    | @begin _ due columns ledger hstage hwanted hb hs =>
      have hledger : s'.ledger = ledger := hs.ledger
      subst hledger
      by_cases hkey : key = e.key
      · subst hkey
        exact .inr (.inr (.inl ⟨_, _, rfl, hb⟩))
      · obtain ⟨c, phase, -, -, hset⟩ := Ledger.begin?_eq_some.mp hb
        exact .inl (by rw [hset, Ledger.find?_set_of_ne hkey])
    | giveUp hstage _ hs =>
      have hbegun : e.stage.begun = true := by
        rcases hstage with hstage | ⟨ticket, hstage⟩ <;> (rw [hstage]; rfl)
      exact (hfinish hbegun hs.ledger).imp id (.inr <| .inr ·)
    | finish hstage hs =>
      exact (hfinish (by rw [hstage]; rfl) hs.ledger).imp id (.inr <| .inr ·)
    | @report _ report rows columns ledger hstage hwanted hclaim hs =>
      have hledger : s'.ledger = ledger := hs.ledger
      by_cases hkey : key = e.key
      · subst hkey
        exact .inr (.inr (.inr ⟨e, he, rfl, by rw [hstage]; rfl,
          .inl (by rw [hledger, Ledger.current?_claim? hclaim])⟩))
      · obtain ⟨c, -, -, rfl⟩ := Ledger.claim?_eq_some.mp hclaim
        exact .inl (by rw [hledger, Ledger.find?_set_of_ne hkey])
    | @spread _ other keys hstage hs =>
      have halike := State.schedule_alike (u := u) hopen other []
      exact (hrequest rfl (hs.ledger.trans halike.ledger)).imp id .inl
    | arm _ hs | discard _ _ hs | queue _ hs | read _ hs | work _ _ hs | stop _ _ hs
    | ignore _ _ hs | fail _ _ hs => exact .inl (congrArg (·.find? key) hs.ledger)
  | @ask c edited job todo _ hknown hstage hs =>
    have halike := State.schedule_alike (u := u) hopen job.key [edited]
    exact (hrequest rfl (hs.ledger.trans halike.ledger)).imp id .inl
  | call hknown hcourse => exact .inl (by rw [hcourse.kept.2.2])
  | outside hout => exact .inl (by rw [hout.kept.2.2])
  | close hclosed =>
    subst hclosed
    cases hopen'

/-- A cell that awaits its next evaluation goes on to, or the evaluation begins with its columns. -/
theorem Effect.awaits_or_begins (ho : s.Orderly) (hopen : s.closed = false)
    (hopen' : s'.closed = false) (heffect : Effect u s x s') {r : Request}
    (hr : s.ledger.current? key = some r) (hp : r.phase = .pending) :
    (∃ r', s'.ledger.current? key = some r' ∧ r'.phase = .pending ∧
        ∀ c ∈ r.fanOut, c ∈ r'.fanOut) ∨
      x = some (.began key r.generation r.fanOut) := by
  rcases heffect.entry hopen hopen' key with
    hsame | ⟨asker, columns, -, hledger⟩ | ⟨g, columns, rfl, hb⟩ | ⟨e, he, rfl, hbegun, hcur⟩
  · exact .inl ⟨r, by rw [Ledger.current?, hsame, ← Ledger.current?, hr], hp, fun c hc => hc⟩
  · rw [hledger]
    exact .inl (Ledger.awaits_request s.nextGeneration columns hr hp)
  · obtain ⟨c, phase, hc, hcc, -⟩ := Ledger.begin?_eq_some.mp hb
    rw [Ledger.current?_of_find? hc, hcc] at hr
    obtain rfl := Option.some.inj hr
    exact .inr rfl
  · -- one that has begun is not the one that waits
    refine .inl ⟨r, hcur.resolve_right ?_ |>.trans hr, hp, fun c hc => hc⟩
    rintro ⟨-, q, hq, hg⟩
    obtain rfl : r = q := Option.some.inj (hr.symm.trans hq)
    have hphase := ho.running_of_begun he hbegun hr hg
    rw [hp] at hphase
    cases hphase

/-- Who asks puts the columns into the entry of the cell. -/
theorem Effect.awaits_of_asked (hopen : s.closed = false) {asker : Task}
    (heffect : Effect u s (some (.asked asker key g fanOut)) s') (hcolumn : column ∈ fanOut) :
    s'.Awaits key column := by
  have hrequest : s'.ledger = s.ledger.request key g fanOut → s'.Awaits key column := by
    intro hledger
    obtain ⟨r, hr, hp, hmem⟩ := Ledger.awaits_asked s.ledger key g fanOut
    exact ⟨r, hledger ▸ hr, hp, hmem column hcolumn⟩
  cases heffect with
  | course hknown hcourse =>
    cases hcourse with
    | spread hstage hs =>
      exact hrequest (hs.ledger.trans (State.schedule_alike (u := u) hopen _ _).ledger)
  | ask hknown hstage hs =>
    exact hrequest (hs.ledger.trans (State.schedule_alike (u := u) hopen _ _).ledger)
  | call hknown hcourse => cases hcourse
  | outside hout => cases hout

/-- The columns of an edit wait in the entry of the cell until an evaluation takes them. -/
theorem Run.awaits_or_took (background : u.ruleSet.throttle.background = true)
    (run : Run u (.start u grid) h s) (hopen : s.closed = false) {asker : Task}
    (hx : h = h₁ ++ .asked asker key g fanOut :: h₂) (hcolumn : column ∈ fanOut) :
    s.Awaits key column ∨ ∃ taker, Took h₂ key taker column := by
  obtain ⟨mid, next, hlaw, heffect, hbefore, hafter⟩ := run.effect_of_mem background hopen hx
  refine Run.induction_after background
    (motive := fun h s => s.Awaits key column ∨ ∃ taker, Took h key taker column) hbefore
    (.inl (heffect.awaits_of_asked hlaw.isOpen.closed hcolumn)) ?_ hafter hopen
  rintro h s₁ y s₂ hlaw₁ hlaw₂ heffect' (⟨r, hr, hp, hmem⟩ | ⟨taker, htook⟩)
  · rcases heffect'.awaits_or_begins hlaw₁.orderly hlaw₁.isOpen.closed hlaw₂.isOpen.closed hr hp
      with ⟨r', hr', hp', hmore⟩ | rfl
    · exact .inl ⟨r', hr', hp', hmore column hmem⟩
    · exact .inr ⟨r.generation, r.fanOut, by simp, hmem⟩
  · exact .inr ⟨taker, htook.mono (List.subset_append_left h _)⟩

/-- On a cell at rest, the columns of every edit were taken. -/
theorem Run.taken (background : u.ruleSet.throttle.background = true)
    (run : Run u (.start u grid) h s) (hopen : s.closed = false) {asker : Task}
    (hx : h = h₁ ++ .asked asker key g fanOut :: h₂) (hcolumn : column ∈ fanOut)
    (hidle : s.ledger.find? key = none) : ∃ taker, Took h₂ key taker column := by
  refine (run.awaits_or_took background hopen hx hcolumn).resolve_left ?_
  rintro ⟨r, hr, -⟩
  rw [Ledger.current?, hidle] at hr
  cases hr

/-! ## Spreading -/

/-- The evaluation has asked for some cells, and is about to ask for the rest. -/
def Spreading (key : CellKey) (generation : Nat) (cells : List CellKey) (h : List Happening)
    (s : State) : Prop :=
  ∃ done left, cells = done ++ left ∧
    (∀ cell ∈ done, ∃ n, .asked (.evaluation generation) cell n [] ∈ h) ∧
    (left = [] ∨ ∃ e ∈ s.evaluations, e.generation = generation ∧ e.key = key ∧
      e.stage = .spreading left)

theorem Spreading.step {cells : List CellKey} (ho : s.Orderly) (hopen : s.closed = false)
    (hopen' : s'.closed = false) (heffect : Effect u s x s') (hs : Spreading key g cells h s) :
    Spreading key g cells (h ++ x.toList) s' := by
  obtain ⟨done, left, rfl, hdone, hleft⟩ := hs
  have hdone' : ∀ cell ∈ done, ∃ n, .asked (.evaluation g) cell n [] ∈ h ++ x.toList := by
    intro cell hcell
    obtain ⟨n, hn⟩ := hdone cell hcell
    exact ⟨n, List.mem_append_left _ hn⟩
  rcases hleft with rfl | ⟨e, he, rfl, rfl, hstage⟩
  · exact ⟨done, [], rfl, hdone', .inl rfl⟩
  rcases heffect.steps_or_stays ho hopen hopen' he with
    hcourse | ⟨hmem, -⟩ | ⟨asker, key, fanOut, -, hmem⟩
  · cases hcourse with
    | @spread _ key keys hnext hs =>
      obtain rfl : left = key :: keys := by
        rw [hstage] at hnext
        cases hnext
        rfl
      refine ⟨done ++ [key], keys, by simp, fun cell hcell => ?_,
        .inr ⟨{ e with stage := .spreading keys }, ?_, rfl, rfl, rfl⟩⟩
      · rcases List.mem_append.mp hcell with hcell | hcell
        · exact hdone' cell hcell
        · rw [List.mem_singleton] at hcell
          subst hcell
          exact ⟨s.nextGeneration, by simp⟩
      · rw [hs.evaluations]
        refine State.mem_setStage.mpr (.inr ⟨rfl, s.superseded u key e, ?_, ?_⟩)
        · rw [(State.schedule_alike (u := u) hopen key []).evaluations]
          exact List.mem_append_left _ (List.mem_map.mpr ⟨e, he, rfl⟩)
        · exact State.generation_superseded e
    | finish hnext hs =>
      obtain rfl : left = [] := by
        rw [hstage] at hnext
        cases hnext
        rfl
      exact ⟨done, [], rfl, hdone', .inl rfl⟩
    | discard hnext | read hnext | giveUp hnext =>
      rcases hnext with hnext | ⟨due, hnext⟩ <;> (rw [hstage] at hnext; cases hnext)
    | arm hnext | begin hnext | queue hnext | work hnext | stop hnext | report hnext
    | ignore hnext | fail hnext =>
      rw [hstage] at hnext
      cases hnext
  · exact ⟨done, left, rfl, hdone', .inr ⟨e, hmem, rfl, rfl, hstage⟩⟩
  · exact ⟨done, left, rfl, hdone', .inr ⟨_, hmem, State.generation_superseded e,
      State.key_superseded e, (State.stage_superseded e).trans hstage⟩⟩

/-- The cells of other rows to judge again, by the columns that were edited. -/
theorem State.mem_peers {row : Nat} {edited : List String} {rows : Dataset} :
    (⟨row, key.column⟩ : CellKey) ∈ s.peers u key edited rows ↔
      row ≠ key.row ∧ row < (s.source u).rowCount ∧
        ∃ c ∈ edited, key.column ∈ u.ruleSet.crossRowTargets c ∧
          (row ∈ u.ruleSet.crossRowPeers key.row c key.column rows ∨
            ⟨row, key.column⟩ ∈ s.flagged) := by
  have hflagged : (∃ cell ∈ s.flagged, cell.column = key.column ∧ cell.row = row) ↔
      (⟨row, key.column⟩ : CellKey) ∈ s.flagged := by
    constructor
    · rintro ⟨⟨r, c⟩, hmem, rfl, rfl⟩
      exact hmem
    · exact fun hmem => ⟨_, hmem, rfl, rfl⟩
  simp only [peers, peerRows, List.mem_map, List.mem_filter, Ascending.mem_ofList, List.mem_flatMap,
    List.mem_append, List.contains_iff_mem, decide_eq_true_eq, bne_iff_ne, CellKey.mk.injEq,
    and_true, beq_iff_eq, exists_eq_right]
  simp only [← hflagged, and_assoc]
  constructor
  · rintro ⟨⟨c, hc, htarget, hwhy⟩, hne, hrow⟩
    exact ⟨hne, hrow, c, hc, htarget, hwhy⟩
  · rintro ⟨hne, hrow, c, hc, htarget, hwhy⟩
    exact ⟨⟨c, hc, htarget, hwhy⟩, hne, hrow⟩

/-- The cells that an edit concerns depend on the grid and the flagged cells only. -/
theorem State.peers_congr (hgrid : s'.grid = s.grid) (hflagged : s'.flagged = s.flagged)
    (edited : List String) (rows : Dataset) :
    s'.peers u key edited rows = s.peers u key edited rows := by
  rw [peers, peers, peerRows, peerRows, source, source, hgrid, hflagged]

/-- An evaluation that reported asks for the cells of other rows that its edited columns concern,
one after the other. -/
theorem Run.spreading (background : u.ruleSet.throttle.background = true) {at₀ next : State}
    {report : CellReport} {rows : Dataset}
    (hreporting : Reporting u grid h₁ at₀ key g fanOut report rows next) (after : Run u next h₂ s)
    (hopen : s.closed = false) : Spreading key g (next.peers u key fanOut rows) h₂ s := by
  have before := hreporting.run.step hreporting.step
  obtain ⟨e, hknown, rfl, rfl, ledger, hclaim, hs⟩ := hreporting.known
  -- the delivering state, by which the cells are chosen
  generalize hdelivered : ({ at₀ with ledger } : State).deliver u report = delivered at hs
  have hknown' : e ∈ delivered.evaluations := by
    subst hdelivered
    exact State.mem_of_evaluation? hknown
  rw [show next.peers u e.key fanOut rows = delivered.peers u e.key fanOut rows from
    State.peers_congr hs.grid hs.flagged _ _]
  have hfirst : Spreading e.key e.generation (delivered.peers u e.key fanOut rows) [] next := by
    refine ⟨[], _, rfl, nofun, .inr
      ⟨{ e with stage := .spreading (delivered.peers u e.key fanOut rows) }, ?_, rfl, rfl, rfl⟩⟩
    rw [hs.evaluations]
    exact State.mem_setStage.mpr (.inr ⟨rfl, e, hknown', rfl⟩)
  exact Run.induction_after background
    (motive := Spreading e.key e.generation (delivered.peers u e.key fanOut rows)) before hfirst
    (fun h s₁ y s₂ hlaw₁ hlaw₂ heffect hspreading =>
      hspreading.step hlaw₁.orderly hlaw₁.isOpen.closed hlaw₂.isOpen.closed heffect)
    after hopen

/-- By the time its cell is at rest, an evaluation that reported has asked for every cell of another
row that its edited columns concern. -/
theorem Run.spreads (background : u.ruleSet.throttle.background = true) {at₀ next : State}
    {report : CellReport} {rows : Dataset}
    (hreporting : Reporting u grid h₁ at₀ key g fanOut report rows next) (after : Run u next h₂ s)
    (hopen : s.closed = false) (hidle : s.ledger.find? key = none) (hcolumn : column ∈ fanOut)
    (htarget : key.column ∈ u.ruleSet.crossRowTargets column) {row : Nat} (hne : row ≠ key.row)
    (hrow : row < (next.source u).rowCount)
    (hwhy : row ∈ u.ruleSet.crossRowPeers key.row column key.column rows ∨
      ⟨row, key.column⟩ ∈ next.flagged) :
    ∃ n, .asked (.evaluation g) ⟨row, key.column⟩ n [] ∈ h₂ := by
  have hpeer : (⟨row, key.column⟩ : CellKey) ∈ next.peers u key fanOut rows :=
    State.mem_peers.mpr ⟨hne, hrow, column, hcolumn, htarget, hwhy⟩
  obtain ⟨done, left, hcells, hdone, hleft⟩ := Run.spreading background hreporting after hopen
  rcases hleft with rfl | ⟨f, hf, -, hkey, hstage⟩
  · rw [hcells, List.append_nil] at hpeer
    exact hdone _ hpeer
  · have hlaw := ((hreporting.run.step hreporting.step).trans after).lawful background hopen
    have hnot := (hlaw.orderly.gone_of_none hf (by rw [hkey]; exact hidle)).2
    rw [hstage] at hnot
    cases hnot

/-! ## Carried out exactly if not dropped -/

/-- On account of the column, the evaluation `taker` of the cell judged the grid as it was after the
evaluation `asked` was asked for, reported, and then asked for every cell of another row that is
still there and that the rules name by the rows it saw, or whose latest verdict was a failure. -/
def CarriedOut (u : Setup) (grid : Grid) (h : List Happening) (key : CellKey) (column : String)
    (asked taker : Nat) : Prop :=
  ∃ h₁ mid h₂ next h₃ report rows,
    h = h₁ ++ .read (.evaluation taker) key :: h₂ ++
      .reported (.evaluation taker) key report.verdict :: h₃ ∧
    AskedFor h₁ key asked ∧
    Moment u (.start u grid) h₁ mid (.read (.evaluation taker) key)
      (h₂ ++ [.reported (.evaluation taker) key report.verdict]) next ∧
    (mid.judging u key).answer = .ok (report, rows) ∧
    ∀ row, row ≠ key.row → row < (next.source u).rowCount →
      (row ∈ u.ruleSet.crossRowPeers key.row column key.column rows ∨
        ∃ v, next.sink.latest? row key.column = some v ∧ v.fails = true) →
      ∃ n, .asked (.evaluation taker) ⟨row, key.column⟩ n [] ∈ h₃

/-- An evaluation that took a column after some evaluation was asked for reads after it, too. -/
theorem Run.asked_before_read (background : u.ruleSet.throttle.background = true)
    (run : Run u (.start u grid) h s) (hopen : s.closed = false) {asker : Task} {taker : Nat}
    (hx : h = h₁ ++ .asked asker key g fanOut :: h₂) (htook : Took h₂ key taker column)
    {k₁ k₂ : List Happening} (hread : h = k₁ ++ .read (.evaluation taker) key :: k₂) :
    AskedFor k₁ key g := by
  have hle : g ≤ taker := by
    obtain ⟨columns, hmem, -⟩ := htook
    obtain ⟨m₁, m₂, rfl⟩ := List.append_of_mem hmem
    have hsplit : h = (h₁ ++ .asked asker key g fanOut :: m₁) ++ .began key taker columns :: m₂ := by
      simpa using hx
    obtain ⟨mid, next, hlaw, heffect, -⟩ := run.effect_of_mem background hopen hsplit
    obtain ⟨e, -, due, ledger, -, -, -, -, hb, -⟩ := heffect.of_began
    exact hlaw.older_of_begins hb ⟨asker, fanOut, by simp⟩
  subst hread
  obtain ⟨mid, next, -, -, hbefore, hafter⟩ := run.effect_of_mem background hopen rfl
  have htaker : AskedFor k₁ key taker := by
    obtain ⟨a, columns, hmem⟩ := hbefore.asked_of_read background (hafter.open hopen)
      (List.mem_append_right k₁ (List.mem_singleton.mpr rfl))
    exact ⟨a, columns, by simpa using hmem⟩
  have hmem : .asked asker key g fanOut ∈ k₁ ++ .read (.evaluation taker) key :: k₂ := by
    rw [hx]
    simp
  rcases List.mem_append.mp hmem with hmem | hmem
  · exact ⟨asker, fanOut, hmem⟩
  · have hlt := run.asked_ascending background hopen htaker ⟨asker, fanOut, hmem⟩
    omega

/-- Who ends has begun. -/
theorem Effect.began_of_ends (hlaw : Lawful u grid h s) {y : Happening}
    (heffect : Effect u s (some y) s') (hends : Ends key g y) :
    ∃ fanOut, Began h key g fanOut := by
  cases heffect with
  | @course e _ _ hknown hcourse =>
    have htold := hlaw.told e (State.mem_of_evaluation? hknown)
    rw [Told] at htold
    cases hcourse with
    | giveUp hstage _ hs =>
      cases hends
      rcases hstage with hstage | ⟨ticket, hstage⟩ <;> (rw [hstage] at htold; exact ⟨_, htold⟩)
    | report hstage _ _ hs | ignore hstage _ hs | fail hstage _ hs =>
      cases hends
      rw [hstage] at htold
      exact ⟨_, htold.1⟩
    | _ => cases hends
  | ask hknown hstage hs => cases hends
  | call hknown hcourse => cases hcourse <;> cases hends
  | outside hout => cases hout <;> cases hends
  | close hclosed => cases hends

/-- The end of an evaluation comes after its beginning. -/
theorem Run.ends_after_began (background : u.ruleSet.throttle.background = true)
    (run : Run u (.start u grid) h s) (hopen : s.closed = false)
    (hx : h = h₁ ++ .began key g fanOut :: h₂) {y : Happening} (hy : y ∈ h)
    (hends : Ends key g y) : y ∈ h₂ := by
  rw [hx] at hy
  rcases List.mem_append.mp hy with hearly | hlate
  · obtain ⟨k₁, k₂, rfl⟩ := List.append_of_mem hearly
    obtain ⟨mid, next, hlaw, heffect, -⟩ := run.effect_of_mem background hopen
      (hx.trans (List.append_assoc k₁ _ _))
    obtain ⟨columns, m₁, m₂, rfl, -⟩ := heffect.began_of_ends hlaw hends
    have hfirst : h = m₁ ++ .began key g columns ::
        (m₂ ++ y :: (k₂ ++ .began key g fanOut :: h₂)) := by
      simpa using hx
    refine absurd ?_ (run.began_once background hopen hfirst key fanOut)
    simp
  · rcases List.mem_cons.mp hlate with rfl | hlate
    · cases hends
    · exact hlate

/-- What an evaluation took is among the columns it began with. -/
theorem Run.mem_fanOut_of_took (background : u.ruleSet.throttle.background = true)
    (run : Run u (.start u grid) h s) (hopen : s.closed = false)
    (hbegan : .began key g fanOut ∈ h) (htook : Took h key g column) : column ∈ fanOut := by
  obtain ⟨columns, hmem, hcolumn⟩ := htook
  rwa [run.began_unique background hopen hbegan hmem]

theorem Began.mem (hb : Began h key g fanOut) : .began key g fanOut ∈ h := by
  obtain ⟨h₁, h₂, rfl, -⟩ := hb
  simp

/-- An evaluation that took the column and reported has carried it out. -/
theorem Run.carriedOut_of_reported (background : u.ruleSet.throttle.background = true)
    (run : Run u (.start u grid) h s) (hopen : s.closed = false) {asker : Task} {taker : Nat}
    (hasked : h = h₁ ++ .asked asker key g fanOut :: h₂) (htook : Took h₂ key taker column)
    (htarget : key.column ∈ u.ruleSet.crossRowTargets column)
    (hidle : s.ledger.find? key = none) (hreported : Reported h key taker) :
    CarriedOut u grid h key column g taker := by
  obtain ⟨v, hv⟩ := hreported
  obtain ⟨k₁, k₂, hk⟩ := List.append_of_mem hv
  obtain ⟨at₀, next, columns, report, rows, hreporting, rfl, hafter⟩ :=
    run.reporting background hk
  have hcolumn : column ∈ columns := by
    refine run.mem_fanOut_of_took background hopen ?_ (htook.mono ?_)
    · rw [hk]
      exact List.mem_append_left _ hreporting.reading.began.mem
    · intro y hy
      rw [hasked]
      simp [hy]
  obtain ⟨r₁, mid, r₂, rfl, hmoment, -, hanswer⟩ := hreporting.reading
  have hnext := hreporting.run.step hreporting.step
  refine ⟨r₁, mid, r₂, next, k₂, report, rows, hk,
    run.asked_before_read background hopen hasked htook (hk.trans (List.append_assoc r₁ _ _)),
    hmoment.extend hreporting.step, hanswer, fun row hne hrow hwhy => ?_⟩
  refine Run.spreads background hreporting hafter hopen hidle hcolumn htarget hne hrow
    (hwhy.imp id fun hfails => ?_)
  exact (hnext.flagged background (hafter.open hopen) ⟨row, key.column⟩).mpr hfails

/-- The evaluation that took the columns of an edit carries them out EXACTLY if it is not dropped.
Some evaluation takes them, as soon as the cell is at rest; and it is dropped only if a newer
evaluation of the cell was asked for, and either superseded ones are told to stop or the newer one
has reported. Where tasks come between the pieces of each other's steps, an evaluation is dropped
only if another one of the cell was entered after it and superseded ones are told to stop, or a
newer one has reported. -/
theorem fanOut_carried_out_iff (background : u.ruleSet.throttle.background = true)
    (run : Run u (.start u grid) h s) (hopen : s.closed = false)
    (sound : ∀ x ∈ h, x.isProblem = false) {asker : Task}
    (hasked : h = h₁ ++ .asked asker key g fanOut :: h₂) (hcolumn : column ∈ fanOut)
    (htarget : key.column ∈ u.ruleSet.crossRowTargets column)
    (hidle : s.ledger.find? key = none) :
    (∃ taker, Took h₂ key taker column) ∧
      (∀ taker, Took h₂ key taker column →
        (CarriedOut u grid h key column g taker ↔ ¬Dropped h key taker) ∧
        (Dropped h key taker → ∃ newer, taker < newer ∧ AskedFor h key newer ∧
          (u.ruleSet.throttle.cancelSuperseded = true ∨ Reported h key newer))) ∧
      ∀ k t, Threads.Run u (.whole (.start u grid)) k t → .closed ∉ k →
        ∀ k₁ other f k₂, k = k₁ ++ .dropped (.evaluation f) other :: k₂ →
          Threads.Outrun u k₁ other f := by
  refine ⟨run.taken background hopen hasked hcolumn hidle, fun taker htook => ?_,
    fun k t hthreads hnever _ _ _ _ hk => hthreads.dropped hnever hk⟩
  obtain ⟨columns, hmem, -⟩ := id htook
  obtain ⟨m₁, m₂, rfl⟩ := List.append_of_mem hmem
  have hbegan : h = (h₁ ++ .asked asker key g fanOut :: m₁) ++ .began key taker columns :: m₂ := by
    simpa using hasked
  have hlater : ∀ y ∈ m₂, y ∈ h := fun y hy => by rw [hbegan]; simp [hy]
  cases run.fate background hopen hbegan with
  | underWay e he hg hkey hunder hnone htold =>
    -- a cell at rest has no evaluation under way
    have hlaw := run.lawful background hopen
    have hnot := (hlaw.orderly.gone_of_none he (by rw [hkey]; exact hidle)).2
    rw [Evaluation.underWay, hnot] at hunder
    cases hunder
  | ended y hy hends honce hgone hover =>
    have hlast : ∀ {z : Happening}, z ∈ h → Ends key taker z → z = y := fun hz hz' =>
      honce _ (run.ends_after_began background hopen hbegan hz hz') hz'
    refine ⟨⟨fun hcarried hdropped => ?_, fun hkept => ?_⟩, fun hdropped => ?_⟩
    · obtain ⟨k₁, mid, k₂, next, k₃, report, rows, hk, -⟩ := hcarried
      have hreported := hlast (show .reported (.evaluation taker) key report.verdict ∈ h by
        rw [hk]; simp) (.reported _)
      rw [← hlast hdropped .dropped] at hreported
      cases hreported
    · refine run.carriedOut_of_reported background hopen hasked htook htarget hidle ?_
      cases hends with
      | reported v => exact ⟨v, hlater _ hy⟩
      | dropped => exact absurd (hlater _ hy) hkept
      | failed p => cases sound _ (hlater _ hy)
    · obtain ⟨newer, hlt, ⟨a, c, ha⟩, hwhy⟩ := hover (hlast hdropped .dropped).symm
      refine ⟨newer, hlt, ⟨a, c, hlater _ ha⟩, hwhy.imp id fun hr => ?_⟩
      obtain ⟨v, hv⟩ := hr
      exact ⟨v, hlater _ hv⟩

/-! ## An edit of a second column in the meantime -/

/-- The cells of a column must differ, which is found out after a second, and another column has a
say. -/
def lookupRule : Rule where
  name := "Code_lookup"
  description := none
  targets := ["Code"]
  dependencies := ["Kind"]
  guard := none
  validators :=
    [.delayed fun _ => .after 1000 (.ok .success),
      .crossRow fun ctx rows => .ok (Check.unique "Code" ctx rows)]
  scopes := [.sameValue "Code"]
  severity := .error
  priority := 0
  message := ""

def impatientWatch : Setup where
  ruleSet :=
    { name := "items"
      rules := [lookupRule]
      throttle := { Throttle.interactive with debounce := 10, cancelSuperseded := true } }
  view := Grid.source

def twoCodes : Grid := ⟨["Code", "Kind"], [[.text "a", .text "x"], [.text "b", .text "x"]]⟩

/-- Row 0 gets the code of row 1. While that is looked into, its kind is edited. -/
def twoEdits : List Move :=
  List.flatten
    [[.setCell 0 "Code" (.text "b"), .edit 0 "Code"], Task.steps 2 (.call 0),
      Task.steps 1 (.evaluation 0), [.pass 10], Task.steps 4 (.evaluation 0), [.edit 0 "Kind"],
      Task.steps 2 (.call 1), Task.steps 3 (.evaluation 0), Task.steps 1 (.evaluation 1),
      [.pass 10], Task.steps 4 (.evaluation 1), [.pass 1000], Task.steps 6 (.evaluation 1)]

def twoEditsHistory : List Happening :=
  [.wrote 0 "Code", .told 0 0 "Code", .asked (.call 0) ⟨0, "Code"⟩ 0 ["Code"],
    .began ⟨0, "Code"⟩ 0 ["Code"], .read (.evaluation 0) ⟨0, "Code"⟩, .told 1 0 "Kind",
    .asked (.call 1) ⟨0, "Code"⟩ 1 ["Kind"], .dropped (.evaluation 0) ⟨0, "Code"⟩,
    .began ⟨0, "Code"⟩ 1 ["Kind"], .read (.evaluation 1) ⟨0, "Code"⟩,
    .reported (.evaluation 1) ⟨0, "Code"⟩ (.error "Code 'b' must be unique (also in row 1)")]

/-- The rows that an edit of the code of row 0 concerns, the verdict on the code of row 1 that was
delivered last, and the one that its rules give. -/
structure Codes where
  concerned : Option (List Nat)
  delivered : Option Verdict
  actual : Option Verdict
  deriving DecidableEq

def State.codes (s : State) : Codes where
  concerned := (s.source impatientWatch).allRows.toOption.map fun rows =>
    impatientWatch.ruleSet.crossRowPeers 0 "Code" "Code" ⟨rows⟩
  delivered := s.sink.latest? 1 "Code"
  actual := ((impatientWatch.ruleSet.evaluateCell (s.source impatientWatch) 1 "Code").answer.map
    (·.verdict)).toOption

/-- Row 1 is concerned and would fail, but nothing was delivered for it. -/
def unknownDuplicate : Codes :=
  ⟨some [1], none, some (.error "Code 'b' must be unique (also in row 0)")⟩

theorem twoEdits_run :
    ∃ s, Run impatientWatch (.start impatientWatch twoCodes) twoEditsHistory s ∧
      s.closed = false ∧ s.ledger.isEmpty = true ∧
      s.codes = unknownDuplicate := by
  have hrecord : ((State.start impatientWatch twoCodes).record? impatientWatch twoEdits).map
      (fun p => (p.1, p.2.closed, p.2.ledger.isEmpty, p.2.codes))
        = some (twoEditsHistory, false, true, unknownDuplicate) := by
    decide +kernel
  obtain ⟨⟨h, s⟩, hs, heq⟩ := Option.map_eq_some_iff.mp hrecord
  simp only [Prod.mk.injEq] at heq
  obtain ⟨rfl, hopen, hempty, hcodes⟩ := heq
  exact ⟨s, Run.of_record? hs, hopen, hempty, hcodes⟩

theorem fanOut_carried_out_iff_two_edits :
    ∃ s, Run impatientWatch (.start impatientWatch twoCodes) twoEditsHistory s ∧
      (CarriedOut impatientWatch twoCodes twoEditsHistory ⟨0, "Code"⟩ "Code" 0 0 ↔
        ¬Dropped twoEditsHistory ⟨0, "Code"⟩ 0) := by
  obtain ⟨s, run, hopen, hempty, -⟩ := twoEdits_run
  have hasked : twoEditsHistory = twoEditsHistory.take 2 ++
      .asked (.call 0) ⟨0, "Code"⟩ 0 ["Code"] :: twoEditsHistory.drop 3 := rfl
  have htarget : "Code" ∈ impatientWatch.ruleSet.crossRowTargets "Code" := by decide
  obtain ⟨-, hrest, -⟩ := fanOut_carried_out_iff rfl run hopen (by decide) hasked
    (List.mem_singleton.mpr rfl) htarget (Ledger.find?_of_isEmpty hempty)
  exact ⟨s, run, (hrest 0 ⟨["Code"], by decide, by simp⟩).1⟩

/-- The edit of the second column drops the evaluation that took the first one, and nobody ever asks
for the other row: its duplicate stays unknown. -/
theorem column_lost_with_dropped :
    ∃ h s, Run impatientWatch (.start impatientWatch twoCodes) h s ∧ s.closed = false ∧
      s.ledger.isEmpty = true ∧ (∀ x ∈ h, x.isProblem = false) ∧
      .asked (.call 0) ⟨0, "Code"⟩ 0 ["Code"] ∈ h ∧
      (∀ asker generation fanOut, .asked asker ⟨1, "Code"⟩ generation fanOut ∉ h) ∧
      s.codes = unknownDuplicate := by
  obtain ⟨s, run, hopen, hempty, hcodes⟩ := twoEdits_run
  refine ⟨twoEditsHistory, s, run, hopen, hempty, by decide, by decide, ?_, hcodes⟩
  intro asker generation fanOut hmem
  simp [twoEditsHistory] at hmem

end CellRules.Watch
