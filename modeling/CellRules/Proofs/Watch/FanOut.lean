/-
CellRules.Proofs.Watch.FanOut — asking for the cells of other rows does not go on for ever.

An edit asks for some cells of its row; each of them, once judged, asks for cells of its column in
other rows, and those may ask again on account of edits that they took over. What keeps this finite
is that every edited column is used up once: it waits in the entry of a cell, the evaluation that
begins takes it along, and once the report is dealt with it is gone.

* `State.load n s` — how many evaluations of other rows the columns on their way may still ask for,
  if each evaluation that carries some asks for at most `n`.
* `Effect.load` — a step pays for what it asks for, with what an edit brings or out of the load.
* `Inherited`, `Led` — where the columns of an evaluation, and the requests for other rows, come from.
* `fanOut_never_cascades` — what holds of every run.
-/
import CellRules.Proofs.RuleSet.OneByOne
import CellRules.Proofs.Watch.Clock
import CellRules.Proofs.Watch.Conserved
import CellRules.Proofs.Watch.Spread
import CellRules.Proofs.Watch.Timed
import Mathlib.Algebra.Order.BigOperators.Group.List

namespace CellRules

/-! ## The columns in a ledger -/

/-- How many evaluations the entry of a cell may still lead to in other rows, if one that carries
columns leads to so many. -/
def CellState.load (n : Nat) (c : CellState) : Nat :=
  if c.current.any (!·.fanOut.isEmpty) then n else 0

theorem Ascending.isEmpty_addAll (set items : List String) :
    (addAll set items).isEmpty = (set.isEmpty && items.isEmpty) := by
  rw [Bool.eq_iff_iff, Bool.and_eq_true, List.isEmpty_iff, List.isEmpty_iff, List.isEmpty_iff]
  simp only [List.eq_nil_iff_forall_not_mem, mem_addAll, not_or]
  exact forall_and

/-- An entry leads to as much as before, and to what the columns of the request lead to. -/
theorem CellState.load_request (n : Nat) (c : CellState) (generation : Nat)
    (fanOut : List String) :
    (c.request generation fanOut).load n ≤ c.load n + if fanOut.isEmpty then 0 else n := by
  unfold request load
  cases hcur : c.current with
  | none => cases fanOut <;> simp
  | some old =>
    cases hphase : old.phase with
    | running => cases fanOut <;> simp [hphase]
    | pending =>
      simp only [hphase, Option.any_some, Ascending.isEmpty_addAll]
      by_cases hnew : fanOut.isEmpty <;> by_cases hold : old.fanOut.isEmpty <;> simp [hnew, hold]

namespace Ledger

/-- The entries of all cells together. -/
def load (n : Nat) (l : Ledger) : Nat := (l.entries.map (·.2.load n)).sum

variable {n : Nat} {l l' : Ledger} {key : CellKey} {c : CellState} {generation : Nat}
  {fanOut : List String}

/-- Setting an entry exchanges what it leads to. -/
theorem load_set (n : Nat) (l : Ledger) (key : CellKey) (c : CellState) :
    (l.set key c).load n + (l.find? key).elim 0 (·.load n) = l.load n + c.load n := by
  have hentries : ∀ entries : List (CellKey × CellState),
      ((setIn key c entries).map (·.2.load n)).sum +
          ((entries.find? (·.1 == key)).map (·.2)).elim 0 (·.load n)
        = (entries.map (·.2.load n)).sum + c.load n := by
    intro entries
    induction entries with
    | nil => simp [setIn]
    | cons entry rest ih =>
      obtain ⟨k, old⟩ := entry
      rw [setIn]
      by_cases hk : k = key
      · simp [hk]
        omega
      · have hne : (k == key) = false := by simpa using hk
        simp only [hk, if_false, List.map_cons, List.sum_cons, List.find?_cons, hne] at ih ⊢
        omega
  exact hentries l.entries

theorem load_erase_le (n : Nat) (l : Ledger) (key : CellKey) : (l.erase key).load n ≤ l.load n :=
  ((List.filter_sublist).map _).sum_le_sum fun _ _ => Nat.zero_le _

/-- A request leads to what its own columns lead to. -/
theorem load_request (n : Nat) (l : Ledger) (key : CellKey) (generation : Nat)
    (fanOut : List String) :
    (l.request key generation fanOut).load n ≤ l.load n + if fanOut.isEmpty then 0 else n := by
  have hset := load_set n l key (((l.find? key).getD {}).request generation fanOut)
  have hnew := ((l.find? key).getD {}).load_request n generation fanOut
  have hold : ((l.find? key).getD {}).load n = (l.find? key).elim 0 (·.load n) := by
    cases l.find? key <;> rfl
  rw [request]
  omega

/-- An evaluation that begins takes along what the entry leads to. -/
theorem load_begin? (hb : l.begin? key generation = some (fanOut, l')) :
    l'.load n + (if fanOut.isEmpty then 0 else n) = l.load n := by
  obtain ⟨c, phase, hfind, hcur, rfl⟩ := begin?_eq_some.mp hb
  have hset := load_set n l key { c with current := some ⟨generation, .running, []⟩ }
  rw [hfind] at hset
  simpa [CellState.load, hcur] using hset

theorem load_claim? (hclaim : l.claim? key generation = some l') : l'.load n = l.load n := by
  obtain ⟨c, hfind, -, rfl⟩ := claim?_eq_some.mp hclaim
  have hset := load_set n l key { c with delivered := some generation }
  rw [hfind] at hset
  exact Nat.add_right_cancel hset

theorem load_finish_le (n : Nat) (l : Ledger) (key : CellKey) (generation : Nat) :
    (l.finish key generation).load n ≤ l.load n := by
  unfold finish
  split
  · exact Nat.le_refl _
  · rename_i c hfind
    dsimp only
    split
    · exact load_erase_le n l key
    · have hset := load_set n l key (c.finish generation)
      have hless : (c.finish generation).load n ≤ c.load n := by
        unfold CellState.finish CellState.load
        split
        · exact Nat.zero_le _
        · exact Nat.le_refl _
      rw [hfind] at hset
      simp only [Option.elim_some] at hset
      omega

end Ledger

namespace Watch

variable {u : Setup} {grid : Grid} {s s' : State} {h h₁ h₂ : List Happening}
  {x : Option Happening} {key : CellKey} {g n R : Nat} {e : Evaluation} {fanOut : List String}

/-! ## The columns on their way -/

/-- How many evaluations a stage still leads to in other rows, if one that carries columns leads to
so many. -/
def Stage.load (n : Nat) : Stage → Nat
  | .asked | .armed _ => 0
  | .entering fanOut | .inLine _ fanOut | .running _ fanOut | .settled _ fanOut =>
    if fanOut.isEmpty then 0 else n
  | .spreading keys => keys.length

namespace State

/-- How many evaluations those under way still lead to. -/
def carried (n : Nat) (s : State) : Nat := (s.evaluations.map (·.stage.load n)).sum

/-- How many evaluations the columns on their way still lead to in other rows. -/
def load (n : Nat) (s : State) : Nat := s.ledger.load n + s.carried n

namespace Orderly

variable (ho : s.Orderly) (he : e ∈ s.evaluations)

include ho he

theorem carried_drop (n : Nat) :
    s.carried n = e.stage.load n + (s.dropEvaluation e).carried n :=
  ((perm_cons_filter ho.nodup he).map _).sum_eq

theorem carried_setStage (n : Nat) (stage : Stage) :
    (s.setStage e stage).carried n = stage.load n + (s.dropEvaluation e).carried n :=
  ((perm_cons_replace ho.nodup he { e with stage }).map _).sum_eq

end Orderly

/-- One that was just asked for carries nothing, and the others carry what they did. -/
theorem carried_asking (u : Setup) (s : State) (key : CellKey) (fanOut : List String) (n : Nat) :
    (s.asking u key fanOut).carried n = s.carried n := by
  unfold carried asking
  simp only [List.map_append, List.map_map, List.sum_append]
  have hsame : ((fun f : Evaluation => f.stage.load n) ∘ s.superseded u key)
      = fun f => f.stage.load n := by
    funext f
    rw [Function.comp, stage_superseded]
  rw [hsame]
  rfl

theorem load_schedule_le (hopen : s.closed = false) (key : CellKey) (fanOut : List String)
    (n : Nat) :
    (s.schedule u key fanOut).load n ≤ s.load n + if fanOut.isEmpty then 0 else n := by
  have halike := schedule_alike (u := u) hopen key fanOut
  have hcarried : (s.schedule u key fanOut).carried n = s.carried n := by
    rw [carried, halike.evaluations]
    exact carried_asking u s key fanOut n
  have hledger := Ledger.load_request n s.ledger key s.nextGeneration fanOut
  rw [load, hcarried, halike.ledger]
  unfold load
  exact (Nat.add_le_add_right hledger _).trans (by omega)

end State

/-! ## The cells of other rows -/

/-- Cells of other rows are judged by rules. -/
theorem rulesFor_of_crossRowTargets {r : RuleSet} {column target : String}
    (h : target ∈ r.crossRowTargets column) : r.rulesFor target ≠ [] := by
  simp only [RuleSet.crossRowTargets, Ascending.mem_ofList, List.mem_flatMap,
    List.mem_filter] at h
  obtain ⟨rule, ⟨hmem, -⟩, htarget⟩ := h
  obtain ⟨found, hfound⟩ := RuleSet.exists_mem_rulesFor (s := r)
    (Ascending.mem_ofList.mpr (List.mem_flatMap.mpr ⟨rule, hmem, htarget⟩))
  exact List.ne_nil_of_mem hfound

/-- A row past the last one cannot be read. -/
def Setup.EndsAtLastRow (u : Setup) : Prop :=
  ∀ grid row ctx, (u.view grid).row row = .ok ctx → row < (u.view grid).rowCount

theorem Setup.endsAtLastRow (hview : u.view = Grid.source) : u.EndsAtLastRow := by
  intro grid row ctx hread
  rw [hview] at hread ⊢
  have hread : grid.row row = .ok ctx := hread
  unfold Grid.row at hread
  cases hcells : grid.rows[row]? with
  | none => rw [hcells] at hread; cases hread
  | some cells => exact (List.getElem?_eq_some_iff.mp hcells).1

/-- A cell that was judged, by rules, is in a row that is there. -/
theorem Setup.EndsAtLastRow.of_judging (hu : u.EndsAtLastRow) {report : CellReport}
    {rows : Dataset} (hanswer : (s.judging u key).answer = .ok (report, rows))
    (hrules : u.ruleSet.rulesFor key.column ≠ []) : key.row < (s.source u).rowCount := by
  rw [State.judging, RuleSet.answer_judging, if_neg (by simpa using hrules)] at hanswer
  cases hread : RuleSet.readCell (u.ruleSet.rulesFor key.column) (s.source u) key.row key.column with
  | error p => rw [hread] at hanswer; cases hanswer
  | ok read =>
    obtain ⟨raw, hraw, -⟩ := RuleSet.readCell_ok hread
    exact hu s.grid key.row raw hraw

/-- Cells of other rows are asked for on account of some column, by the rules. -/
theorem State.exists_of_mem_peers {edited : List String} {rows : Dataset} {peer : CellKey}
    (h : peer ∈ s.peers u key edited rows) :
    peer.column = key.column ∧ peer.row ≠ key.row ∧
      ∃ column ∈ edited, key.column ∈ u.ruleSet.crossRowTargets column := by
  obtain ⟨row, -, rfl⟩ := List.mem_map.mp h
  obtain ⟨hne, -, column, hcolumn, htarget, -⟩ := State.mem_peers.mp h
  exact ⟨rfl, hne, column, hcolumn, htarget⟩

/-- There are no more cells to ask for than other rows. -/
theorem State.length_peers_le (u : Setup) (s : State) (edited : List String) (rows : Dataset)
    (hrow : key.row < (s.source u).rowCount) :
    (s.peers u key edited rows).length ≤ (s.source u).rowCount - 1 := by
  have hnodup : ((s.peerRows u key edited rows).filter (· < (s.source u).rowCount)).Nodup :=
    (((Ascending.pairwise_ofList _).filter _).filter _).imp fun hlt => Nat.ne_of_lt hlt
  have hsub : ((s.peerRows u key edited rows).filter (· < (s.source u).rowCount)) ⊆
      (List.range (s.source u).rowCount).erase key.row := by
    intro row hmem
    obtain ⟨hmem, hlt⟩ := List.mem_filter.mp hmem
    have hne : row ≠ key.row := by simpa using (List.mem_filter.mp hmem).2
    exact (List.mem_erase_of_ne hne).mpr (List.mem_range.mpr (by simpa using hlt))
  have hlength := (List.subperm_of_subset hnodup hsub).length_le
  rw [List.length_erase_of_mem (List.mem_range.mpr hrow), List.length_range] at hlength
  rwa [peers, List.length_map]

/-! ## Every step pays for what it asks for -/

/-- A call asks for an evaluation: of a cell that an edit concerns. -/
def Happening.byEdit : Happening → Bool
  | .asked (.call _) _ _ _ => true
  | _ => false

/-- How many evaluations the edits asked for. -/
def editRequests (h : List Happening) : Nat := h.countP (·.byEdit)

/-- If the evaluation comes to a report by rules, its cell is in one of so many rows. -/
def Evaluation.Within (u : Setup) (R : Nat) (e : Evaluation) : Prop :=
  u.ruleSet.rulesFor e.key.column ≠ [] → match e.stage with
  | .running work _ => (∃ judgement, work.rest.answer = .ok judgement) → e.key.row < R
  | .settled answer _ =>
    e.cancelled = false → (∃ judgement, answer = .ok judgement) → e.key.row < R
  | _ => True

/-- It is one that was there, or one that has made no report yet. -/
theorem Evaluation.Within.of_stage {f : Evaluation} (hw : e.Within u R) (hkey : f.key = e.key)
    (hstage : f.stage = e.stage) (hc : f.cancelled = false → e.cancelled = false) :
    f.Within u R := by
  unfold Within at hw ⊢
  rw [hkey, hstage]
  intro hrules
  have hold := hw hrules
  split at hold
  · exact hold
  · exact fun hwanted => hold (hc hwanted)
  · trivial

/-- Whoever reports judged its cell by rules, on a grid of so many rows. -/
theorem Effect.within (hu : u.EndsAtLastRow) (hrows : (s.source u).rowCount = R)
    (hopen : s.closed = false) (hopen' : s'.closed = false)
    (hw : ∀ f ∈ s.evaluations, f.Within u R) (heffect : Effect u s x s') :
    ∀ f ∈ s'.evaluations, f.Within u R := by
  intro f hf
  cases heffect.origin hopen hopen' hf with
  | asked _ hstage =>
    rw [Evaluation.Within, hstage]
    exact fun _ => trivial
  | stood he _ hkey hstage hwanted => exact (hw _ he).of_stage hkey hstage hwanted
  | @moved e he hg hcourse =>
    have hold := hw e he
    cases hcourse with
    | discard _ _ hs | giveUp _ _ hs | finish _ hs =>
      exact absurd hg (State.ne_of_dropEvaluation hs.evaluations hf)
    | arm _ hs | begin _ _ _ hs | queue _ hs | report _ _ _ hs | ignore _ _ hs | fail _ _ hs
    | spread _ hs =>
      rw [State.eq_of_setStage hs.evaluations hf hg]
      exact fun _ => trivial
    | read hstage hs =>
      rw [State.eq_of_setStage hs.evaluations hf hg]
      rintro hrules ⟨⟨report, rows⟩, hanswer⟩
      rw [← hrows]
      exact hu.of_judging hanswer hrules
    | @work _ work next fanOut hstage hkept hs =>
      rw [State.eq_of_setStage hs.evaluations hf hg]
      intro hrules
      have hold := hold hrules
      rw [hstage] at hold
      change (∃ judgement, next.rest.answer = .ok judgement) → e.key.row < R
      rwa [hkept]
    | @stop _ work fanOut answer hstage hkept hs =>
      rw [State.eq_of_setStage hs.evaluations hf hg]
      intro hrules hwanted hanswer
      have hold := hold hrules
      rw [hstage] at hold
      rcases hkept with rfl | hcancelled
      · exact hold hanswer
      · exact absurd (hwanted.symm.trans hcancelled) (by simp)

/-- What an evaluation asks for, and what it leads to later, it led to before. -/
theorem Course.load (ho : s.Orderly) (hopen : s.closed = false)
    (hrows : (s.source u).rowCount = R) (hw : e.Within u R) (he : e ∈ s.evaluations)
    (hcourse : Course u s e x s') :
    (requests x.toList).length + s'.load (R - 1) ≤ s.load (R - 1) := by
  have hbefore := ho.carried_drop he (R - 1)
  have hquiet : s'.ledger.load (R - 1) ≤ s.ledger.load (R - 1) →
      s'.carried (R - 1) ≤ s.carried (R - 1) → 0 + s'.load (R - 1) ≤ s.load (R - 1) :=
    fun hledger hcarried => by
      rw [Nat.zero_add]
      exact Nat.add_le_add hledger hcarried
  have hset : ∀ {t : State} {stage : Stage}, t.evaluations = s.evaluations →
      s'.Alike (t.setStage e stage) →
      s'.carried (R - 1) = stage.load (R - 1) + (s.dropEvaluation e).carried (R - 1) := by
    intro t stage ht hs
    rw [← ho.carried_setStage he (R - 1) stage, State.carried, State.carried, hs.evaluations]
    simp only [State.setStage, State.setEvaluation, ht]
  have hstays : ∀ {stage : Stage}, s'.Alike (s.setStage e stage) →
      stage.load (R - 1) ≤ e.stage.load (R - 1) → 0 + s'.load (R - 1) ≤ s.load (R - 1) := by
    intro stage hs hle
    have hafter := hset rfl hs
    exact hquiet (Nat.le_of_eq (congrArg (Ledger.load _) hs.ledger)) (by omega)
  have hgone : ∀ {t : State}, t.evaluations = (s.dropEvaluation e).evaluations →
      s'.evaluations = t.evaluations → s'.carried (R - 1) ≤ s.carried (R - 1) := by
    intro t ht hevaluations
    have hafter : s'.carried (R - 1) = (s.dropEvaluation e).carried (R - 1) := by
      rw [State.carried, State.carried, hevaluations, ht]
    omega
  cases hcourse with
  | arm hstage hs | ignore hstage _ hs | fail hstage _ hs => exact hstays hs (Nat.zero_le _)
  | queue hstage hs | work hstage _ hs | stop hstage _ hs =>
    exact hstays hs (by rw [hstage]; exact Nat.le_refl _)
  | read hstage hs =>
    refine hstays hs ?_
    rcases hstage with hstage | ⟨ticket, hstage⟩ <;> (rw [hstage]; exact Nat.le_refl _)
  | discard _ _ hs =>
    exact hquiet (Nat.le_of_eq (congrArg (Ledger.load _) hs.ledger)) (hgone rfl hs.evaluations)
  | giveUp _ _ hs | finish _ hs =>
    refine hquiet ?_ (hgone (t := { s.dropEvaluation e with ledger := _ }) rfl hs.evaluations)
    rw [show s'.ledger = s.ledger.finish e.key e.generation from hs.ledger]
    exact Ledger.load_finish_le _ _ _ _
  | @begin _ due columns ledger hstage _ hb hs =>
    have hledger := Ledger.load_begin? (n := R - 1) hb
    have hafter : s'.carried (R - 1) = (if columns.isEmpty then 0 else R - 1) +
        (s.dropEvaluation e).carried (R - 1) := hset (t := { s with ledger }) rfl hs
    change 0 + s'.load (R - 1) ≤ _
    rw [State.load, State.load, show s'.ledger = ledger from hs.ledger]
    omega
  | @report _ report rows columns ledger hstage hwanted hclaim hs =>
    have hledger := Ledger.load_claim? (n := R - 1) hclaim
    generalize hdelivered : (({ s with ledger } : State).deliver u report) = delivered at hs
    have hsource : delivered.source u = s.source u := by
      subst hdelivered
      rfl
    have hafter := hset (t := delivered) (by subst hdelivered; rfl) hs
    have hpeers : (delivered.peers u e.key columns rows).length ≤ e.stage.load (R - 1) := by
      rw [hstage]
      cases hcolumns : columns with
      | nil => exact Nat.le_refl 0
      | cons column more =>
        cases hfirst : delivered.peers u e.key (column :: more) rows with
        | nil => exact Nat.zero_le _
        | cons peer peers =>
          -- someone is asked for, so the cell was judged by rules and is in one of the rows
          obtain ⟨-, -, c, -, htarget⟩ := State.exists_of_mem_peers
            (hfirst ▸ List.mem_cons_self : peer ∈ delivered.peers u e.key (column :: more) rows)
          have hrow := hw (rulesFor_of_crossRowTargets htarget)
          rw [hstage] at hrow
          have hlt : e.key.row < (delivered.source u).rowCount := by
            rw [hsource, hrows]
            exact hrow hwanted ⟨_, rfl⟩
          rw [← hfirst, ← hrows, ← hsource]
          exact delivered.length_peers_le u _ rows hlt
    have hledger' : s'.ledger = ledger := by
      subst hdelivered
      exact hs.ledger
    change 0 + s'.load (R - 1) ≤ _
    change s'.carried (R - 1) = (delivered.peers u e.key columns rows).length + _ at hafter
    rw [State.load, State.load, hledger']
    omega
  | @spread _ key keys hstage hs =>
    have hasked := State.load_schedule_le (u := u) hopen key [] (R - 1)
    have hmem := ho.mem_schedule (u := u) hopen he hstage
    have hord := ho.schedule (u := u) hopen key []
    have hfirst := hord.carried_drop hmem (R - 1)
    have hthen := hord.carried_setStage hmem (R - 1) (.spreading keys)
    rw [hstage] at hfirst
    have hledger : s'.ledger = (s.schedule u key []).ledger := hs.ledger
    have hafter : s'.carried (R - 1)
        = ((s.schedule u key []).setStage e (.spreading keys)).carried (R - 1) := by
      rw [State.carried, State.carried, hs.evaluations]
    change 1 + s'.load (R - 1) ≤ _
    unfold State.load at hasked ⊢
    rw [hledger, hafter]
    simp only [Stage.load, List.length_cons, List.isEmpty_nil, if_true] at hfirst hthen hasked
    omega

/-- A step pays for what it asks for: out of what columns on their way lead to, or with what an edit
brings. -/
theorem Effect.load (ho : s.Orderly) (hopen : s.closed = false) (hopen' : s'.closed = false)
    (hrows : (s.source u).rowCount = R) (hw : ∀ f ∈ s.evaluations, f.Within u R)
    (heffect : Effect u s x s') :
    (requests x.toList).length + s'.load (R - 1) ≤
      s.load (R - 1) + editRequests x.toList * max 1 R := by
  have hsame : s'.evaluations = s.evaluations ∧ s'.nextGeneration = s.nextGeneration ∧
      s'.ledger = s.ledger → requests x.toList = [] →
      (requests x.toList).length + s'.load (R - 1) ≤
        s.load (R - 1) + editRequests x.toList * max 1 R := by
    rintro ⟨hevaluations, -, hledger⟩ hnone
    rw [hnone, State.load, State.load, State.carried, State.carried, hevaluations, hledger]
    simp
  cases heffect with
  | @course e _ _ hknown hcourse =>
    have he := State.mem_of_evaluation? hknown
    exact (hcourse.load ho hopen hrows (hw e he) he).trans (Nat.le_add_right _ _)
  | @ask c edited job todo _ hknown hstage hs =>
    have hasked := State.load_schedule_le (u := u) hopen job.key [edited] (R - 1)
    have hafter : s'.load (R - 1) = (s.schedule u job.key [edited]).load (R - 1) := by
      rw [State.load, State.load, State.carried, State.carried, hs.evaluations, hs.ledger]
      rfl
    change 1 + s'.load (R - 1) ≤ s.load (R - 1) + 1 * max 1 R
    rw [hafter]
    simp only [List.isEmpty_cons, Bool.false_eq_true, if_false] at hasked
    omega
  | call hknown hcourse => exact hsame hcourse.kept (by cases hcourse <;> rfl)
  | outside hout => exact hsame hout.kept (by cases hout <;> rfl)
  | close hclosed =>
    subst hclosed
    cases hopen'

/-! ## Where columns and requests come from -/

/-- An edit asked for an evaluation of the cell on account of the column, no later than this one was
asked for, and no evaluation of the cell has begun since. -/
def Inherited (h : List Happening) (key : CellKey) (generation : Nat) (column : String) : Prop :=
  ∃ h₁ id g h₂, h = h₁ ++ .asked (.call id) key g [column] :: h₂ ∧ g ≤ generation ∧
    ∀ g fanOut, .began key g fanOut ∉ h₂

/-- The cell is to be judged on account of a column that an evaluation of a cell in another row took
over when it began. -/
def Led (u : Setup) (h : List Happening) (key : CellKey) (generation : Nat) (peer : CellKey) :
    Prop :=
  peer.column = key.column ∧ peer.row ≠ key.row ∧ ∃ fanOut column,
    .began key generation fanOut ∈ h ∧ column ∈ fanOut ∧
      key.column ∈ u.ruleSet.crossRowTargets column

variable {column : String} {peer : CellKey}

theorem Inherited.later (hi : Inherited h key g column) (hle : g ≤ n)
    (hx : ∀ g fanOut, x ≠ some (.began key g fanOut)) :
    Inherited (h ++ x.toList) key n column := by
  obtain ⟨h₁, id, g₀, h₂, rfl, hfirst, hnone⟩ := hi
  refine ⟨h₁, id, g₀, h₂ ++ x.toList, by simp, hfirst.trans hle, fun g fanOut hmem => ?_⟩
  rcases List.mem_append.mp hmem with hmem | hmem
  · exact hnone g fanOut hmem
  · exact hx g fanOut (Option.mem_toList.mp hmem)

/-- What was just asked for by an edit. -/
theorem Inherited.asked (h : List Happening) (id : Nat) (key : CellKey) (g : Nat)
    (column : String) :
    Inherited (h ++ [.asked (.call id) key g [column]]) key g column :=
  ⟨h, id, g, [], rfl, Nat.le_refl g, by simp⟩

theorem Led.later (hl : Led u h key g peer) (x : Option Happening) :
    Led u (h ++ x.toList) key g peer := by
  obtain ⟨hcolumn, hrow, fanOut, column, hbegan, hmem, htarget⟩ := hl
  exact ⟨hcolumn, hrow, fanOut, column, List.mem_append_left _ hbegan, hmem, htarget⟩

/-- The columns that wait in the ledger are those of edits, and the cells that evaluations are about
to ask for are those that such columns lead to. -/
structure Sourced (u : Setup) (h : List Happening) (s : State) : Prop where
  inherited : ∀ key r, s.ledger.current? key = some r →
    ∀ column ∈ r.fanOut, Inherited h key r.generation column
  led : ∀ e ∈ s.evaluations, ∀ keys, e.stage = .spreading keys →
    ∀ peer ∈ keys, Led u h e.key e.generation peer

/-- The columns of the newest request of a cell waited in the entry before, or have just been asked
for. -/
theorem Ledger.fanOut_request {l : Ledger} {other : CellKey} {r : Request}
    (hr : (l.request other g fanOut).current? key = some r) (hcolumn : column ∈ r.fanOut) :
    (∃ q, l.current? key = some q ∧ column ∈ q.fanOut ∧ (q = r ∨ (key = other ∧ r.generation = g))) ∨
      (key = other ∧ r.generation = g ∧ column ∈ fanOut) := by
  by_cases hkey : key = other
  · subst hkey
    rw [Ledger.current?_of_find? Ledger.find?_request_self] at hr
    cases hfind : l.find? key with
    | none =>
      simp only [hfind, Option.getD_none, CellState.request, Option.some.injEq] at hr
      subst hr
      exact .inr ⟨rfl, rfl, hcolumn⟩
    | some c =>
      simp only [hfind, Option.getD_some, CellState.request] at hr
      cases hcur : c.current with
      | none =>
        simp only [hcur, Option.some.injEq] at hr
        subst hr
        exact .inr ⟨rfl, rfl, hcolumn⟩
      | some old =>
        simp only [hcur] at hr
        cases hphase : old.phase with
        | running =>
          simp only [hphase, Option.some.injEq] at hr
          subst hr
          exact .inr ⟨rfl, rfl, hcolumn⟩
        | pending =>
          simp only [hphase, Option.some.injEq] at hr
          subst hr
          rcases Ascending.mem_addAll.mp hcolumn with hnew | hold
          · exact .inr ⟨rfl, rfl, hnew⟩
          · exact .inl ⟨old, by rw [Ledger.current?_of_find? hfind, hcur], hold, .inr ⟨rfl, rfl⟩⟩
  · rw [Ledger.current?, Ledger.find?_request_of_ne hkey, ← Ledger.current?] at hr
    exact .inl ⟨r, hr, hcolumn, .inl rfl⟩

/-- The newest request of a cell is older than those to come. -/
theorem State.Orderly.request_below (ho : s.Orderly) {r : Request}
    (hr : s.ledger.current? key = some r) : r.generation < s.nextGeneration := by
  obtain ⟨e, he, hg, -⟩ := ho.exists_newest hr
  rw [← hg]
  exact ho.below e he

theorem Effect.inherited (ho : s.Orderly) (hopen : s.closed = false) (hopen' : s'.closed = false)
    (hi : ∀ key r, s.ledger.current? key = some r →
      ∀ column ∈ r.fanOut, Inherited h key r.generation column) (heffect : Effect u s x s')
    {r : Request} (hr : s'.ledger.current? key = some r) (hcolumn : column ∈ r.fanOut) :
    Inherited (h ++ x.toList) key r.generation column := by
  have hsame : s.ledger.current? key = some r → (∀ g fanOut, x ≠ some (.began key g fanOut)) →
      Inherited (h ++ x.toList) key r.generation column :=
    fun hr hx => (hi key r hr column hcolumn).later (Nat.le_refl _) hx
  have hfinish : ∀ {e : Evaluation}, s'.ledger = s.ledger.finish e.key e.generation →
      s.ledger.current? key = some r := by
    intro e hledger
    obtain ⟨c, hfind, hcur⟩ := Ledger.current?_eq_some.mp (hledger ▸ hr)
    obtain ⟨b, hb, -, hkept⟩ := Ledger.find?_of_find?_finish hfind
    rw [Ledger.current?_of_find? hb]
    exact hkept r hcur
  have hold : ∀ {q : Request} {other : CellKey}, s.ledger.current? key = some q →
      column ∈ q.fanOut → (q = r ∨ (key = other ∧ r.generation = s.nextGeneration)) →
      (∀ g fanOut, x ≠ some (.began key g fanOut)) →
      Inherited (h ++ x.toList) key r.generation column := by
    intro q other hq hmem hwhich hx
    refine (hi key q hq column hmem).later ?_ hx
    rcases hwhich with rfl | ⟨-, hg⟩
    · exact Nat.le_refl _
    · rw [hg]
      exact Nat.le_of_lt (ho.request_below hq)
  cases heffect with
  | @course e _ _ hknown hcourse =>
    cases hcourse with
    | @begin _ due columns ledger hstage hwanted hb hs =>
      rw [show s'.ledger = ledger from hs.ledger] at hr
      obtain ⟨c, phase, hc, hcc, rfl⟩ := Ledger.begin?_eq_some.mp hb
      by_cases hkey : key = e.key
      · -- the columns went with the evaluation
        subst hkey
        rw [Ledger.current?_of_find? Ledger.find?_set_self] at hr
        cases hr
        cases hcolumn
      · exact hsame (by rwa [Ledger.current?_set_of_ne hkey] at hr) (by simp [Ne.symm hkey])
    | giveUp hstage _ hs => exact hsame (hfinish hs.ledger) (by simp)
    | finish hstage hs => exact hsame (hfinish hs.ledger) (by simp)
    | @report _ report rows columns ledger hstage hwanted hclaim hs =>
      rw [show s'.ledger = ledger from hs.ledger, Ledger.current?_claim? hclaim] at hr
      exact hsame hr (by simp)
    | @spread _ other keys hstage hs =>
      have halike := State.schedule_alike (u := u) hopen other []
      rw [show s'.ledger = s.ledger.request other s.nextGeneration [] from
        hs.ledger.trans halike.ledger] at hr
      rcases Ledger.fanOut_request hr hcolumn with ⟨q, hq, hmem, hwhich⟩ | ⟨-, -, hnone⟩
      · exact hold hq hmem hwhich (by simp)
      · cases hnone
    | arm _ hs | discard _ _ hs | queue _ hs | read _ hs | work _ _ hs | stop _ _ hs
    | ignore _ _ hs | fail _ _ hs =>
      exact hsame (by rwa [show s'.ledger = s.ledger from hs.ledger] at hr) (by simp)
  | @ask c edited job todo _ hknown hstage hs =>
    have halike := State.schedule_alike (u := u) hopen job.key [edited]
    rw [show s'.ledger = s.ledger.request job.key s.nextGeneration [edited] from
      hs.ledger.trans halike.ledger] at hr
    rcases Ledger.fanOut_request hr hcolumn with ⟨q, hq, hmem, hwhich⟩ | ⟨rfl, hg, hnew⟩
    · exact hold hq hmem hwhich (by simp)
    · rw [List.mem_singleton] at hnew
      subst hnew
      rw [hg]
      exact .asked h c.id job.key s.nextGeneration column
  | call hknown hcourse =>
    exact hsame (by rwa [hcourse.kept.2.2] at hr) (by cases hcourse <;> simp)
  | outside hout => exact hsame (by rwa [hout.kept.2.2] at hr) (by cases hout <;> simp)
  | close hclosed =>
    subst hclosed
    cases hopen'

theorem Effect.led (hopen : s.closed = false) (hopen' : s'.closed = false)
    (hbegan : ∀ e ∈ s.evaluations, ∀ answer fanOut, e.stage = .settled answer fanOut →
      .began e.key e.generation fanOut ∈ h)
    (hl : ∀ e ∈ s.evaluations, ∀ keys, e.stage = .spreading keys →
      ∀ peer ∈ keys, Led u h e.key e.generation peer) (heffect : Effect u s x s')
    {f : Evaluation} (hf : f ∈ s'.evaluations) {keys : List CellKey}
    (hstage : f.stage = .spreading keys) (hpeer : peer ∈ keys) :
    Led u (h ++ x.toList) f.key f.generation peer := by
  cases heffect.origin hopen hopen' hf with
  | asked _ hfresh =>
    rw [hfresh] at hstage
    cases hstage
  | @stood e he hg hkey hsame _ =>
    rw [hg, hkey]
    exact (hl e he keys (hsame ▸ hstage) peer hpeer).later x
  | @moved e he hg hcourse =>
    have hstages : ∀ {t : State} {stage : Stage}, s'.evaluations = (t.setStage e stage).evaluations →
        f.key = e.key ∧ stage = .spreading keys := by
      intro t stage hevaluations
      obtain rfl := State.eq_of_setStage hevaluations hf hg
      exact ⟨rfl, hstage⟩
    rw [hg]
    cases hcourse with
    | discard _ _ hs | giveUp _ _ hs | finish _ hs =>
      exact absurd hg (State.ne_of_dropEvaluation hs.evaluations hf)
    | arm _ hs | begin _ _ _ hs | queue _ hs | read _ hs | work _ _ hs | stop _ _ hs =>
      cases (hstages hs.evaluations).2
    | ignore _ _ hs | fail _ _ hs =>
      cases (hstages hs.evaluations).2
      cases hpeer
    | @report _ report rows columns ledger hsettled hwanted hclaim hs =>
      obtain ⟨hkey, hkeys⟩ := hstages hs.evaluations
      cases hkeys
      rw [hkey]
      obtain ⟨hcolumn, hrow, c, hc, htarget⟩ := State.exists_of_mem_peers hpeer
      exact ⟨hcolumn, hrow, columns, c,
        List.mem_append_left _ (hbegan e he _ _ hsettled), hc, htarget⟩
    | @spread _ key rest hspreading hs =>
      obtain ⟨hkey, hkeys⟩ := hstages hs.evaluations
      cases hkeys
      rw [hkey]
      exact (hl e he _ hspreading peer (List.mem_cons_of_mem _ hpeer)).later _

theorem Run.sourced (background : u.ruleSet.throttle.background = true)
    (run : Run u (.start u grid) h s) (hopen : s.closed = false) : Sourced u h s := by
  refine (Run.induction_open background (motive := Sourced u) (State.open_start u grid)
    ⟨nofun, nofun⟩ ?_ run hopen).2
  intro h s₁ y s₂ hrun ho₁ ho₂ _ heffect hs
  have hlaw := hrun.lawful background ho₁.closed
  refine ⟨fun key r hr column hcolumn =>
      heffect.inherited hlaw.orderly ho₁.closed ho₂.closed hs.inherited hr hcolumn,
    fun e he keys hstage peer hpeer =>
      heffect.led ho₁.closed ho₂.closed (fun f hf answer fanOut hsettled => ?_) hs.led he hstage
        hpeer⟩
  have htold := hlaw.told f hf
  rw [Told, hsettled] at htold
  exact htold.1.mem

/-- An evaluation begins with columns of edits. -/
theorem Run.inherited_of_began (background : u.ruleSet.throttle.background = true)
    (run : Run u (.start u grid) h s) (hx : h = h₁ ++ .began key g fanOut :: h₂)
    (hcolumn : column ∈ fanOut) : Inherited h₁ key g column := by
  obtain ⟨mid, hbefore, next, hstep, -⟩ := run.moment hx
  have hopen : mid.closed = false := by
    by_contra hclosed
    exact (hstep.seen_of_closed (by simpa using hclosed)).2 _ _ _ rfl
  have hlaw := hbefore.lawful background hopen
  obtain ⟨m, hm, hseen⟩ := hstep
  have heffect := State.move?_effect background hlaw.isOpen hm
  rw [hseen] at heffect
  obtain ⟨e, -, due, ledger, -, -, -, -, hb, -⟩ := heffect.of_began
  obtain ⟨c, phase, hfind, hcur, -⟩ := Ledger.begin?_eq_some.mp hb
  exact (hbefore.sourced background hopen).inherited key ⟨g, phase, fanOut⟩
    (by rw [Ledger.current?_of_find? hfind, hcur]) column hcolumn

/-- Evaluations ask for cells that the columns they took over lead to, on account of no column. -/
theorem Run.led_of_asked (background : u.ruleSet.throttle.background = true)
    (run : Run u (.start u grid) h s)
    (hx : h = h₁ ++ .asked (.evaluation g) peer n fanOut :: h₂) :
    fanOut = [] ∧ ∃ key, Led u h₁ key g peer := by
  obtain ⟨mid, hbefore, next, hstep, -⟩ := run.moment hx
  have hopen : mid.closed = false := by
    by_contra hclosed
    exact (hstep.seen_of_closed (by simpa using hclosed)).1 _ _ _ _ rfl
  have hlaw := hbefore.lawful background hopen
  obtain ⟨m, hm, hseen⟩ := hstep
  have heffect := State.move?_effect background hlaw.isOpen hm
  rw [hseen] at heffect
  cases heffect with
  | @course e _ _ hknown hcourse =>
    cases hcourse with
    | spread hstage hs =>
      exact ⟨rfl, e.key, (hbefore.sourced background hopen).led e
        (State.mem_of_evaluation? hknown) _ hstage peer List.mem_cons_self⟩
  | call hknown hcourse => cases hcourse
  | outside hout => cases hout

/-! ## What edits ask for -/

/-- The cells that an edit concerns directly. -/
def Happening.targets (u : Setup) : Happening → Nat
  | .told _ _ column => (u.editTargets column).length
  | _ => 0

/-- The cells that the edits told of so far concern directly. -/
def editedCells (u : Setup) (h : List Happening) : Nat := (h.map (·.targets u)).sum

/-- The cells that a call has yet to ask for. -/
def CallStage.toAsk : CallStage → Nat
  | .editing _ todo none => todo.length
  | _ => 0

def State.toAsk (s : State) : Nat := (s.calls.map (·.stage.toAsk)).sum

/-- A call that goes on has as much to ask for as its new stage. -/
theorem State.Numbered.toAsk_goTo (hn : s.Numbered) {c : Call} (hc : c ∈ s.calls)
    (stage : CallStage) :
    (Call.goTo s c stage).toAsk + c.stage.toAsk = s.toAsk + stage.toAsk := by
  have hids : (s.calls.map (·.id)).Nodup := by
    rw [show s.calls.map (·.id) = List.range s.nextCall from hn]
    exact List.nodup_range
  have hbefore := ((perm_cons_filter hids hc).map (fun d : Call => d.stage.toAsk)).sum_eq
  have hafter := ((perm_cons_replace hids hc { c with stage }).map
    (fun d : Call => d.stage.toAsk)).sum_eq
  rw [List.map_cons, List.sum_cons] at hbefore hafter
  unfold State.toAsk Call.goTo
  dsimp only at hbefore hafter ⊢
  omega

/-- What a call asks for it was told. -/
theorem Effect.toAsk (hn : s.Numbered) (hopen : s.closed = false) (hopen' : s'.closed = false)
    (heffect : Effect u s x s') :
    editRequests x.toList + s'.toAsk ≤ s.toAsk + editedCells u x.toList := by
  have hsame : s'.calls = s.calls → editRequests x.toList = 0 →
      editRequests x.toList + s'.toAsk ≤ s.toAsk + editedCells u x.toList := by
    intro hcalls hnone
    rw [hnone, State.toAsk, State.toAsk, hcalls]
    omega
  have hgoTo : ∀ {t : State} {c : Call} {stage : CallStage}, s.call? c.id = some c →
      t.calls = s.calls → s'.Alike (Call.goTo t c stage) →
      s'.toAsk + c.stage.toAsk = s.toAsk + stage.toAsk := by
    intro t c stage hknown ht hs
    rw [← hn.toAsk_goTo (State.mem_of_call? hknown), State.toAsk, State.toAsk, hs.calls]
    simp only [Call.goTo, ht]
  have hadd : ∀ {stage : CallStage}, s'.Alike (s.addCall stage) →
      s'.toAsk = s.toAsk + stage.toAsk := by
    intro stage hs
    rw [State.toAsk, hs.calls, State.addCall, List.map_append, List.sum_append]
    rfl
  cases heffect with
  | course hknown hcourse =>
    refine hsame (hcourse.calls hopen) ?_
    cases hcourse <;> rfl
  | @ask c edited job todo _ hknown hstage hs =>
    have hcalls := (State.schedule_alike (u := u) hopen job.key [edited]).calls
    have hmoves := hgoTo hknown hcalls hs
    rw [hstage] at hmoves
    simp only [CallStage.toAsk, List.length_cons] at hmoves
    change 1 + s'.toAsk ≤ s.toAsk + 0
    omega
  | call hknown hcourse =>
    cases hcourse with
    | deliver _ hs =>
      have hmoves := hgoTo (t := s.deliver u _) hknown rfl hs
      change 0 + s'.toAsk ≤ s.toAsk + 0
      simp only [CallStage.toAsk] at hmoves
      omega
    | told _ hs | survey _ _ hs | look _ _ hs | found _ _ hs | strand _ _ hs | judged _ _ hs
    | conclude _ hs | refuse _ hs =>
      have hmoves := hgoTo hknown rfl hs
      change 0 + s'.toAsk ≤ s.toAsk + 0
      simp only [CallStage.toAsk] at hmoves
      omega
  | outside hout =>
    cases hout with
    | write _ hs | push hs | wait hs => exact hsame hs.calls rfl
    | @tell _ row column hs =>
      have hmore := hadd hs
      change 0 + s'.toAsk ≤ s.toAsk + ((u.editTargets column).length + 0)
      simp only [CallStage.toAsk, List.length_map] at hmore
      omega
    | askAll hs =>
      have hmore := hadd hs
      change 0 + s'.toAsk ≤ s.toAsk + 0
      exact (Nat.zero_add _).trans_le hmore.le
  | close hclosed =>
    subst hclosed
    cases hopen'

/-! ## Every run -/

theorem editRequests_append (h₁ h₂ : List Happening) :
    editRequests (h₁ ++ h₂) = editRequests h₁ + editRequests h₂ :=
  List.countP_append

theorem editedCells_append (u : Setup) (h₁ h₂ : List Happening) :
    editedCells u (h₁ ++ h₂) = editedCells u h₁ + editedCells u h₂ := by
  simp [editedCells]

/-- A move after which the watch is closed shows no request. -/
theorem Run.editRequests_of_closed (background : u.ruleSet.throttle.background = true)
    (run : Run u (.start u grid) h s) (hstep : Step u s x s') (hclosed' : s'.closed = true) :
    editRequests x.toList = 0 := by
  have hnone : ∀ asker key g fanOut, x ≠ some (.asked asker key g fanOut) := by
    rintro asker key g fanOut rfl
    cases hclosed : s.closed with
    | true => exact (hstep.seen_of_closed hclosed).1 _ _ _ _ rfl
    | false =>
      obtain ⟨hlaw, heffect⟩ := run.lawful_step background hclosed hstep
      rcases heffect.open_or_closed hlaw.isOpen with ho | ⟨hx, -⟩
      · exact absurd (ho.closed.symm.trans hclosed') (by simp)
      · cases hx
  cases x with
  | none => rfl
  | some y =>
    cases y with
    | asked asker key g fanOut => exact absurd rfl (hnone asker key g fanOut)
    | _ => rfl

/-- Calls ask for no more cells than the edits that were told of concern. -/
theorem Run.editRequests_le (background : u.ruleSet.throttle.background = true)
    (run : Run u (.start u grid) h s) : editRequests h ≤ editedCells u h := by
  have hpaid : editRequests h ≤ editedCells u h ∧
      (s.closed = false → editRequests h + s.toAsk ≤ editedCells u h) := by
    induction run with
    | rest => exact ⟨Nat.le_refl _, fun _ => Nat.le_refl _⟩
    | @move h s₁ s₂ m hrun hm ih =>
      rw [editRequests_append, editedCells_append]
      cases hclosed : s₂.closed with
      | true =>
        have hnone := hrun.editRequests_of_closed background ⟨m, hm, rfl⟩ hclosed
        exact ⟨by omega, by simp⟩
      | false =>
        have hopen := State.open_of_move? hm hclosed
        obtain ⟨-, heffect⟩ := hrun.lawful_step background hopen ⟨m, hm, rfl⟩
        have hstep := heffect.toAsk (hrun.booked hopen).1.tidy.ids hopen hclosed
        have hbefore := ih.2 hopen
        exact ⟨by omega, fun _ => by omega⟩
  exact hpaid.1

/-- As long as the watch is open, what was asked for and what columns on their way lead to was paid
for by edits. -/
theorem TimedRun.paid {k : List Sighting} (background : u.ruleSet.throttle.background = true)
    (hu : u.EndsAtLastRow)
    (run : TimedRun u (fun s _ => (s.source u).rowCount == R) (.start u grid) k s)
    (hopen : s.closed = false) :
    (∀ f ∈ s.evaluations, f.Within u R) ∧
      (requests (happenings k)).length + s.load (R - 1) ≤
        editRequests (happenings k) * max 1 R := by
  induction run with
  | rest => exact ⟨nofun, Nat.zero_le _⟩
  | @move k s₁ s₂ m hrun hrows hm ih =>
    have hopen₁ := State.open_of_move? hm hopen
    obtain ⟨hwithin, hpaid⟩ := ih hopen₁
    obtain ⟨hlaw, heffect⟩ := hrun.run.lawful_step background hopen₁ ⟨m, hm, rfl⟩
    have hload := heffect.load hlaw.orderly hopen₁ hopen (eq_of_beq hrows) hwithin
    refine ⟨heffect.within hu (eq_of_beq hrows) hopen₁ hopen hwithin, ?_⟩
    rw [happenings_append, happenings_sighted, editRequests_append, Nat.add_mul, requests,
      List.filterMap_append, List.length_append]
    unfold requests at hpaid hload
    omega

/-- What was asked for in the background was paid for by edits. -/
theorem TimedRun.scheduled_le {k : List Sighting}
    (background : u.ruleSet.throttle.background = true) (hu : u.EndsAtLastRow)
    (run : TimedRun u (fun s _ => (s.source u).rowCount == R) (.start u grid) k s) :
    s.stats.scheduled ≤ editRequests (happenings k) * max 1 R := by
  induction run with
  | rest => exact Nat.zero_le _
  | @move k s₁ s₂ m hrun hrows hm ih =>
    cases hclosed : s₂.closed with
    | true =>
      rw [State.scheduled_move? background hm hclosed, happenings_append, editRequests_append,
        Nat.add_mul]
      exact ih.trans (Nat.le_add_right _ _)
    | false =>
      have hpaid := ((hrun.move m hrows hm).paid background hu hclosed).2
      obtain ⟨-, ended, htallied⟩ := (hrun.move m hrows hm).run.booked hclosed
      have hscheduled : s₂.stats.scheduled = 0 + _ := htallied.scheduled
      omega

/-- The evaluations of other rows do not go on for ever. On a grid of `R` rows, the evaluations
asked for are at most `R` for each cell that edits asked for, and those are no more than the cells
that the edits concern, however tasks take their steps and whether or not superseded evaluations are
told to stop. What an evaluation asks for in other rows it asks for on account of columns that it
took over when it began, and each of these was left in the entry of its cell by an edit, since when
no other evaluation of the cell had begun. -/
theorem fanOut_never_cascades {k : List Sighting} (background : u.ruleSet.throttle.background = true)
    (hu : u.EndsAtLastRow)
    (run : TimedRun u (fun s _ => (s.source u).rowCount == R) (.start u grid) k s) :
    s.stats.scheduled ≤ editRequests (happenings k) * max 1 R ∧
      editRequests (happenings k) ≤ editedCells u (happenings k) ∧
      (∀ h₁ g peer n fanOut h₂,
        happenings k = h₁ ++ .asked (.evaluation g) peer n fanOut :: h₂ →
        fanOut = [] ∧ ∃ key, Led u h₁ key g peer) ∧
      ∀ h₁ key g fanOut h₂, happenings k = h₁ ++ .began key g fanOut :: h₂ →
        ∀ column ∈ fanOut, Inherited h₁ key g column :=
  ⟨run.scheduled_le background hu, run.run.editRequests_le background,
    fun _ _ _ _ _ _ hx => run.run.led_of_asked background hx,
    fun _ _ _ _ _ hx _ hcolumn => run.run.inherited_of_began background hx hcolumn⟩

/-- Row 0 gets the code of row 1, and asks for it. -/
def copiedCode : List Move :=
  List.flatten
    [[.setCell 0 "Code" (.text "b"), .edit 0 "Code"], Task.steps 2 (.call 0),
      Task.steps 1 (.evaluation 0), [.pass 10], Task.steps 4 (.evaluation 0), [.pass 1000],
      Task.steps 6 (.evaluation 0)]

/-- The bound is reached: one edited cell, two rows, two evaluations. -/
theorem fanOut_never_cascades_copied_code :
    ∃ k s, TimedRun impatientWatch (fun s _ => (s.source impatientWatch).rowCount == 2)
        (.start impatientWatch twoCodes) k s ∧
      s.stats.scheduled = 2 ∧ editRequests (happenings k) = 1 ∧
      s.stats.scheduled ≤ editRequests (happenings k) * max 1 2 := by
  have hobserved : ((State.start impatientWatch twoCodes).timed? impatientWatch
      (fun s _ => (s.source impatientWatch).rowCount == 2) copiedCode).map
        (fun p => (p.2.stats.scheduled, editRequests (happenings p.1))) = some (2, 1) := by
    decide +kernel
  obtain ⟨⟨k, s⟩, hs, heq⟩ := Option.map_eq_some_iff.mp hobserved
  obtain ⟨hscheduled, hedits⟩ := Prod.mk.inj heq
  have run := TimedRun.of_timed? hs
  exact ⟨k, s, run, hscheduled, hedits,
    (fanOut_never_cascades rfl (Setup.endsAtLastRow rfl) run).1⟩

end Watch

end CellRules
