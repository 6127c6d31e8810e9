/-
CellRules.Proofs.Watch.Chronicle — what the ledger remembers of the history.

An entry of the ledger remembers the newest evaluation of its cell and the newest report, but only
while it is there; it goes when the last evaluation of the cell finishes and is made anew by the next
edit. `Chronicle h s` ties what is remembered to the whole history `h`:

* reports of a cell come with growing generations,
* the generation remembered as delivered is that of the last report; while none is remembered, every
  evaluation that may still report is newer than all reports,
* the newest evaluation that was asked for is the newest one of the entry, unless it has reported or
  failed.

`Effect.chronicle` shows that every effect on an open watch keeps this.
-/
import CellRules.Proofs.Watch.Standing

namespace CellRules.Watch

/-! ## What a history says of a cell -/

/-- An evaluation of the cell was asked for, with this generation. -/
def AskedFor (h : List Happening) (key : CellKey) (generation : Nat) : Prop :=
  ∃ asker fanOut, Happening.asked asker key generation fanOut ∈ h

/-- The evaluation delivered its report on the cell. -/
def Reported (h : List Happening) (key : CellKey) (generation : Nat) : Prop :=
  ∃ verdict, Happening.reported (.evaluation generation) key verdict ∈ h

/-- The evaluation met a problem though it was not told to stop. -/
def Failed (h : List Happening) (key : CellKey) (generation : Nat) : Prop :=
  ∃ problem, Happening.failed (.evaluation generation) key problem ∈ h

/-- No newer evaluation of the cell was asked for. -/
def Newest (h : List Happening) (key : CellKey) (generation : Nat) : Prop :=
  AskedFor h key generation ∧ ∀ g, AskedFor h key g → g ≤ generation

/-- The generation of a report on a cell by an evaluation. -/
def Happening.reportOf? (key : CellKey) : Happening → Option Nat
  | .reported (.evaluation generation) k _ => if k = key then some generation else none
  | _ => none

/-- The generations of the reports on a cell by evaluations, in order. -/
def reportedOf (key : CellKey) (h : List Happening) : List Nat := h.filterMap (·.reportOf? key)

/-- The happening asks for no evaluation and is no report of one. -/
def Happening.quiet : Happening → Bool
  | .asked _ _ _ _ | .reported (.evaluation _) _ _ => false
  | _ => true

variable {h : List Happening} {x : Option Happening} {key : CellKey} {g : Nat}

theorem reportOf?_eq_some {y : Happening} :
    y.reportOf? key = some g ↔ ∃ v, y = .reported (.evaluation g) key v := by
  cases y with
  | reported reporter k v =>
    cases reporter with
    | evaluation generation =>
      simp only [Happening.reportOf?]
      split
      · rename_i hk
        subst hk
        simp
      · rename_i hk
        simp [hk]
    | _ => simp [Happening.reportOf?]
  | _ => simp [Happening.reportOf?]

theorem mem_reportedOf : g ∈ reportedOf key h ↔ Reported h key g := by
  simp only [reportedOf, List.mem_filterMap, reportOf?_eq_some, Reported]
  constructor
  · rintro ⟨_, hy, v, rfl⟩
    exact ⟨v, hy⟩
  · rintro ⟨v, hv⟩
    exact ⟨_, hv, v, rfl⟩

theorem AskedFor.append (ha : AskedFor h key g) (h' : List Happening) :
    AskedFor (h ++ h') key g := by
  obtain ⟨asker, fanOut, ha⟩ := ha
  exact ⟨asker, fanOut, List.mem_append_left _ ha⟩

theorem Reported.append (hr : Reported h key g) (h' : List Happening) :
    Reported (h ++ h') key g := by
  obtain ⟨v, hr⟩ := hr
  exact ⟨v, List.mem_append_left _ hr⟩

theorem Failed.append (hf : Failed h key g) (h' : List Happening) :
    Failed (h ++ h') key g := by
  obtain ⟨p, hf⟩ := hf
  exact ⟨p, List.mem_append_left _ hf⟩

theorem reportedOf_same (hx : ∀ g v, x ≠ some (.reported (.evaluation g) key v)) :
    reportedOf key (h ++ x.toList) = reportedOf key h := by
  cases x with
  | none => simp
  | some y =>
    have hnone : y.reportOf? key = none := by
      cases hy : y.reportOf? key with
      | none => rfl
      | some g =>
        obtain ⟨v, rfl⟩ := reportOf?_eq_some.mp hy
        exact absurd rfl (hx g v)
    simp [reportedOf, hnone]

section Quiet

variable (hx : ∀ y, x = some y → y.quiet = true)

include hx

theorem askedFor_quiet : AskedFor (h ++ x.toList) key g ↔ AskedFor h key g := by
  refine ⟨?_, fun ha => ha.append _⟩
  rintro ⟨asker, fanOut, ha⟩
  rcases List.mem_append.mp ha with ha | ha
  · exact ⟨asker, fanOut, ha⟩
  · cases hx _ (Option.mem_toList.mp ha)

theorem reported_quiet : Reported (h ++ x.toList) key g ↔ Reported h key g := by
  refine ⟨?_, fun hr => hr.append _⟩
  rintro ⟨v, hr⟩
  rcases List.mem_append.mp hr with hr | hr
  · exact ⟨v, hr⟩
  · cases hx _ (Option.mem_toList.mp hr)

theorem reportedOf_quiet : reportedOf key (h ++ x.toList) = reportedOf key h :=
  reportedOf_same fun g v heq => by cases hx _ heq

end Quiet

theorem askedFor_concat {asker : Task} {k : CellKey} {n : Nat} {fanOut : List String} :
    AskedFor (h ++ [.asked asker k n fanOut]) key g ↔ AskedFor h key g ∨ (key = k ∧ g = n) := by
  constructor
  · rintro ⟨asker', fanOut', ha⟩
    rcases List.mem_append.mp ha with ha | ha
    · exact .inl ⟨asker', fanOut', ha⟩
    · simp only [List.mem_singleton, Happening.asked.injEq] at ha
      exact .inr ⟨ha.2.1, ha.2.2.1⟩
  · rintro (ha | ⟨rfl, rfl⟩)
    · exact ha.append _
    · exact ⟨asker, fanOut, by simp⟩

theorem reported_asked {asker : Task} {k : CellKey} {n : Nat} {fanOut : List String} :
    Reported (h ++ [.asked asker k n fanOut]) key g ↔ Reported h key g := by
  refine ⟨?_, fun hr => hr.append _⟩
  rintro ⟨v, hr⟩
  exact ⟨v, by simpa using hr⟩

theorem reported_concat {k : CellKey} {n : Nat} {v : Verdict} :
    Reported (h ++ [.reported (.evaluation n) k v]) key g ↔
      Reported h key g ∨ (key = k ∧ g = n) := by
  constructor
  · rintro ⟨v', hr⟩
    rcases List.mem_append.mp hr with hr | hr
    · exact .inl ⟨v', hr⟩
    · simp only [List.mem_singleton, Happening.reported.injEq, Task.evaluation.injEq] at hr
      exact .inr ⟨hr.2.1, hr.1⟩
  · rintro (hr | ⟨rfl, rfl⟩)
    · exact hr.append _
    · exact ⟨v, by simp⟩

/-! ## The chronicle -/

/-- The evaluation has yet to deal with its report. -/
def Evaluation.reporting (e : Evaluation) : Bool :=
  match e.stage with
  | .spreading _ => false
  | _ => true

/-- The evaluation has begun, or nobody told it to stop before it did. -/
def Evaluation.live (e : Evaluation) : Prop := e.cancelled = false ∨ e.stage.begun = true

instance : DecidablePred Evaluation.live := fun _ => inferInstanceAs (Decidable (_ ∨ _))

/-- What the entry of a cell remembers is what the history tells. -/
structure Remembers (h : List Happening) (s : State) (key : CellKey) (c : CellState) : Prop where
  delivered : ∀ d, c.delivered = some d → Reported h key d ∧ ∀ g, Reported h key g → g ≤ d
  undelivered : c.delivered = none →
    ∀ e ∈ s.evaluations, e.key = key → e.live → ∀ g, Reported h key g → g < e.generation
  newest : ∀ r, c.current = some r → ∀ g, AskedFor h key g → g ≤ r.generation

/-- The history and the state of an open watch tell the same. -/
structure Chronicle (h : List Happening) (s : State) : Prop where
  below : ∀ key g, AskedFor h key g → g < s.nextGeneration
  asked : ∀ e ∈ s.evaluations, AskedFor h e.key e.generation
  reportedAsked : ∀ key g, Reported h key g → AskedFor h key g
  ascending : ∀ key, (reportedOf key h).Pairwise (· < ·)
  unreported : ∀ e ∈ s.evaluations, e.reporting = true → ∀ key, ¬Reported h key e.generation
  remembers : ∀ key c, s.ledger.find? key = some c → Remembers h s key c
  newest : ∀ key g, Newest h key g →
    (∃ r, s.ledger.current? key = some r ∧ r.generation = g) ∨ Reported h key g ∨ Failed h key g
  done : ∀ e ∈ s.evaluations, e.reporting = false →
    ∀ r, s.ledger.current? e.key = some r → r.generation = e.generation →
      Reported h e.key e.generation ∨ Failed h e.key e.generation

variable {u : Setup} {s s' : State} {e : Evaluation} {h' : List Happening}

/-- What an entry remembers stays true as long as nothing is asked for or reported of its cell. -/
theorem Remembers.kept {b c : CellState} (hb : Remembers h s key b)
    (hreported : ∀ g, Reported h' key g ↔ Reported h key g)
    (hasked : ∀ g, AskedFor h' key g → AskedFor h key g)
    (hlive : ∀ f ∈ s'.evaluations, f.key = key → f.live →
      ∃ e ∈ s.evaluations, e.generation = f.generation ∧ e.key = key ∧ e.live)
    (hdelivered : c.delivered = b.delivered)
    (hcurrent : ∀ r, c.current = some r → ∃ q, b.current = some q ∧ q.generation = r.generation) :
    Remembers h' s' key c where
  delivered d hd := by
    obtain ⟨hd, hmax⟩ := hb.delivered d (hdelivered ▸ hd)
    exact ⟨(hreported d).mpr hd, fun g hr => hmax g ((hreported g).mp hr)⟩
  undelivered hnone f hf hkey hflive g hr := by
    obtain ⟨e, he, hg, hekey, helive⟩ := hlive f hf hkey hflive
    rw [← hg]
    exact hb.undelivered (hdelivered ▸ hnone) e he hekey helive g ((hreported g).mp hr)
  newest r hr g ha := by
    obtain ⟨q, hq, hg⟩ := hcurrent r hr
    rw [← hg]
    exact hb.newest q hq g (hasked g ha)

theorem delivered_request (b : CellState) (g : Nat) (fanOut : List String) :
    (b.request g fanOut).delivered = b.delivered := by
  unfold CellState.request
  dsimp only
  split
  · rfl
  · split <;> rfl

theorem chronicle_start (u : Setup) (grid : Grid) : Chronicle [] (State.start u grid) where
  below _ _ h := by obtain ⟨_, _, h⟩ := h; cases h
  asked _ h := by cases h
  reportedAsked _ _ h := by obtain ⟨_, h⟩ := h; cases h
  ascending _ := .nil
  unreported _ h := by cases h
  remembers _ _ h := by cases h
  newest _ _ h := by obtain ⟨⟨_, _, h⟩, -⟩ := h; cases h
  done _ h := by cases h

namespace Chronicle

variable (hc : Chronicle h s)

include hc

/-- Nothing is asked for and nothing reported: evaluations go on or finish, and entries forget at
most which evaluation is the newest. -/
theorem quiet (hx : ∀ y, x = some y → y.quiet = true)
    (hnext : s'.nextGeneration = s.nextGeneration)
    (hkept : ∀ f ∈ s'.evaluations, ∃ e ∈ s.evaluations, e.generation = f.generation ∧
      e.key = f.key ∧ (f.live → e.live) ∧ (f.reporting = true → e.reporting = true))
    (hentry : ∀ key c, s'.ledger.find? key = some c → ∃ b, s.ledger.find? key = some b ∧
      c.delivered = b.delivered ∧ ∀ r, c.current = some r →
        ∃ q, b.current = some q ∧ q.generation = r.generation)
    (hnewest : ∀ key q, s.ledger.current? key = some q →
      (∃ r, s'.ledger.current? key = some r ∧ r.generation = q.generation) ∨
        Reported (h ++ x.toList) key q.generation ∨ Failed (h ++ x.toList) key q.generation)
    (hdone : ∀ f ∈ s'.evaluations, f.reporting = false →
      ∀ r, s'.ledger.current? f.key = some r → r.generation = f.generation →
        Reported (h ++ x.toList) f.key f.generation ∨ Failed (h ++ x.toList) f.key f.generation) :
    Chronicle (h ++ x.toList) s' where
  below key g ha := by
    rw [askedFor_quiet hx] at ha
    rw [hnext]
    exact hc.below key g ha
  asked f hf := by
    obtain ⟨e, he, hg, hk, -⟩ := hkept f hf
    rw [← hg, ← hk]
    exact (hc.asked e he).append _
  reportedAsked key g hr := by
    rw [reported_quiet hx] at hr
    exact (hc.reportedAsked key g hr).append _
  ascending key := by
    rw [reportedOf_quiet hx]
    exact hc.ascending key
  unreported f hf hrep key := by
    obtain ⟨e, he, hg, -, -, hback⟩ := hkept f hf
    rw [reported_quiet hx, ← hg]
    exact hc.unreported e he (hback hrep) key
  remembers key c hfind := by
    obtain ⟨b, hb, hdelivered, hcurrent⟩ := hentry key c hfind
    refine (hc.remembers key b hb).kept (fun _ => reported_quiet hx)
      (fun _ => (askedFor_quiet hx).mp) (fun f hf hkey hlive => ?_) hdelivered hcurrent
    obtain ⟨e, he, hg, hk, hback, -⟩ := hkept f hf
    exact ⟨e, he, hg, hk.trans hkey, hback hlive⟩
  newest key g hn := by
    have hold : Newest h key g :=
      ⟨(askedFor_quiet hx).mp hn.1, fun g' ha => hn.2 g' (ha.append _)⟩
    rcases hc.newest key g hold with ⟨q, hq, rfl⟩ | hr | hf
    · exact hnewest key q hq
    · exact .inr (.inl (hr.append _))
    · exact .inr (.inr (hf.append _))
  done := hdone

/-- An evaluation only moves on to another stage. -/
theorem setStage {stage : Stage} {ledger : Ledger} (he : e ∈ s.evaluations)
    (hx : ∀ y, x = some y → y.quiet = true)
    (hlive : ∀ f : Evaluation, f = { e with stage } → f.live → e.live)
    (hreporting : ({ e with stage } : Evaluation).reporting = true → e.reporting = true)
    (hentry : ∀ key c, ledger.find? key = some c → ∃ b, s.ledger.find? key = some b ∧
      c.delivered = b.delivered ∧ ∀ r, c.current = some r →
        ∃ q, b.current = some q ∧ q.generation = r.generation)
    (hnewest : ∀ key q, s.ledger.current? key = some q →
      ∃ r, ledger.current? key = some r ∧ r.generation = q.generation)
    (hdone : ({ e with stage } : Evaluation).reporting = false →
      ∀ r, ledger.current? e.key = some r → r.generation = e.generation →
        Reported (h ++ x.toList) e.key e.generation ∨ Failed (h ++ x.toList) e.key e.generation)
    (hs : s'.Alike ({ s with ledger }.setStage e stage)) : Chronicle (h ++ x.toList) s' := by
  have hmem : ∀ f ∈ s'.evaluations, (f ∈ s.evaluations ∧ f.generation ≠ e.generation) ∨
      f = { e with stage } := by
    intro f hf
    rw [hs.evaluations] at hf
    rcases State.mem_setStage.mp hf with hf | ⟨rfl, -⟩
    · exact .inl hf
    · exact .inr rfl
  have hledger : s'.ledger = ledger := hs.ledger
  refine hc.quiet hx hs.nextGeneration (fun f hf => ?_) (by rwa [hledger])
    (fun key q hq => .inl (by rw [hledger]; exact hnewest key q hq)) (fun f hf hrep r hr hg => ?_)
  · rcases hmem f hf with ⟨hf, -⟩ | rfl
    · exact ⟨f, hf, rfl, rfl, id, id⟩
    · exact ⟨e, he, rfl, rfl, hlive _ rfl, hreporting⟩
  · rw [hledger] at hr
    rcases hmem f hf with ⟨hf, -⟩ | rfl
    · -- the newest evaluation was the newest before
      obtain ⟨c, hfind, hcur⟩ := Ledger.current?_eq_some.mp hr
      obtain ⟨b, hb, -, hq⟩ := hentry f.key c hfind
      obtain ⟨q, hq, hqg⟩ := hq r hcur
      have hold := hc.done f hf hrep q (by rw [Ledger.current?_of_find? hb, hq]) (hqg.trans hg)
      exact hold.imp (·.append _) (·.append _)
    · exact hdone hrep r hr hg

theorem discard (hx : ∀ y, x = some y → y.quiet = true) (hs : s'.Alike (s.dropEvaluation e)) :
    Chronicle (h ++ x.toList) s' := by
  have hmem : ∀ f ∈ s'.evaluations, f ∈ s.evaluations := by
    intro f hf
    rw [hs.evaluations] at hf
    exact (State.mem_dropEvaluation.mp hf).1
  have hledger : s'.ledger = s.ledger := hs.ledger
  refine hc.quiet hx hs.nextGeneration (fun f hf => ⟨f, hmem f hf, rfl, rfl, id, id⟩)
    (fun key c hfind => ?_) (fun key q hq => .inl ?_) (fun f hf hrep r hr hg => ?_)
  · rw [hledger] at hfind
    exact ⟨c, hfind, rfl, fun r hr => ⟨r, hr, rfl⟩⟩
  · rw [hledger]
    exact ⟨q, hq, rfl⟩
  · rw [hledger] at hr
    exact (hc.done f (hmem f hf) hrep r hr hg).imp (·.append _) (·.append _)

/-- An evaluation that has begun finishes; if it is the newest, it has reported or failed. -/
theorem finish (hx : ∀ y, x = some y → y.quiet = true)
    (hend : ∀ r, s.ledger.current? e.key = some r → r.generation = e.generation →
      Reported h e.key e.generation ∨ Failed h e.key e.generation)
    (hs : s'.Alike { s.dropEvaluation e with ledger := s.ledger.finish e.key e.generation }) :
    Chronicle (h ++ x.toList) s' := by
  have hmem : ∀ f ∈ s'.evaluations, f ∈ s.evaluations := by
    intro f hf
    rw [hs.evaluations] at hf
    exact (State.mem_dropEvaluation.mp hf).1
  have hledger : s'.ledger = s.ledger.finish e.key e.generation := hs.ledger
  refine hc.quiet hx hs.nextGeneration (fun f hf => ⟨f, hmem f hf, rfl, rfl, id, id⟩)
    (fun key c hfind => ?_) (fun key q hq => ?_) (fun f hf hrep r hr hg => ?_)
  · obtain ⟨b, hb, hdel, hcur⟩ := Ledger.find?_of_find?_finish (hledger ▸ hfind)
    exact ⟨b, hb, hdel, fun r hr => ⟨r, hcur r hr, rfl⟩⟩
  · rw [hledger]
    by_cases hkey : key = e.key
    · subst hkey
      by_cases hg : q.generation = e.generation
      · rw [hg]
        exact .inr ((hend q hq hg).imp (·.append _) (·.append _))
      · refine .inl ⟨q, ?_, rfl⟩
        rw [Ledger.current?_finish_self fun r hr => ?_, hq]
        rw [hq] at hr
        exact Option.some.inj hr ▸ hg
    · exact .inl ⟨q, (Ledger.current?_finish_of_ne hkey).trans hq, rfl⟩
  · refine (hc.done f (hmem f hf) hrep r ?_ hg).imp (·.append _) (·.append _)
    rw [hledger] at hr
    obtain ⟨c, hfind, hcur⟩ := Ledger.current?_eq_some.mp hr
    obtain ⟨b, hb, -, hq⟩ := Ledger.find?_of_find?_finish hfind
    rw [Ledger.current?_of_find? hb, hq r hcur]

/-- A report is newer than all before. -/
theorem report_newer (he : e ∈ s.evaluations) (hlive : e.live) (hrep : e.reporting = true)
    {ledger : Ledger} (hclaim : s.ledger.claim? e.key e.generation = some ledger)
    (hr : Reported h e.key g) :
    g < e.generation := by
  obtain ⟨c, hfind, hd, -⟩ := Ledger.claim?_eq_some.mp hclaim
  have hmem := hc.remembers e.key c hfind
  cases hdel : c.delivered with
  | none => exact hmem.undelivered hdel e he rfl hlive g hr
  | some d =>
    obtain ⟨hrd, hmax⟩ := hmem.delivered d hdel
    have hne : d ≠ e.generation := by
      rintro rfl
      exact hc.unreported e he hrep e.key hrd
    have h₁ := hmax g hr
    have h₂ := hd d hdel
    omega

theorem report (he : e ∈ s.evaluations) (hlive : e.live)
    (hrep : e.reporting = true) {ledger : Ledger} {keys : List CellKey} {v : Verdict}
    (hclaim : s.ledger.claim? e.key e.generation = some ledger)
    (hnext : s'.nextGeneration = s.nextGeneration) (hledger : s'.ledger = ledger)
    (hevaluations : s'.evaluations = (s.setStage e (.spreading keys)).evaluations) :
    Chronicle (h ++ [.reported (.evaluation e.generation) e.key v]) s' := by
  have hnewer := fun g => hc.report_newer (g := g) he hlive hrep hclaim
  have hmem : ∀ f ∈ s'.evaluations, (f ∈ s.evaluations ∧ f.generation ≠ e.generation) ∨
      f = { e with stage := .spreading keys } := by
    intro f hf
    rw [hevaluations] at hf
    rcases State.mem_setStage.mp hf with hf | ⟨rfl, -⟩
    · exact .inl hf
    · exact .inr rfl
  have hcurrent : ∀ key, s'.ledger.current? key = s.ledger.current? key := by
    intro key
    rw [hledger]
    exact Ledger.current?_claim? hclaim
  obtain ⟨c, hfind, -, rfl⟩ := Ledger.claim?_eq_some.mp hclaim
  have hasked : ∀ {key g},
      AskedFor (h ++ [.reported (.evaluation e.generation) e.key v]) key g ↔ AskedFor h key g := by
    intro key g
    refine ⟨?_, fun ha => ha.append _⟩
    rintro ⟨asker, fanOut, ha⟩
    exact ⟨asker, fanOut, by simpa using ha⟩
  constructor
  · intro key g ha
    rw [hnext]
    exact hc.below key g (hasked.mp ha)
  · intro f hf
    rcases hmem f hf with ⟨hf, -⟩ | rfl
    · exact (hc.asked f hf).append _
    · exact (hc.asked e he).append _
  · intro key g hr
    rcases reported_concat.mp hr with hr | ⟨rfl, rfl⟩
    · exact (hc.reportedAsked key g hr).append _
    · exact (hc.asked e he).append _
  · intro key
    by_cases hkey : key = e.key
    · subst hkey
      have hlast : reportedOf e.key (h ++ [.reported (.evaluation e.generation) e.key v])
          = reportedOf e.key h ++ [e.generation] := by
        simp [reportedOf, Happening.reportOf?]
      rw [hlast, List.pairwise_append]
      refine ⟨hc.ascending e.key, List.pairwise_singleton _ _, fun g hg d hd => ?_⟩
      rw [List.mem_singleton] at hd
      subst hd
      exact hnewer g (mem_reportedOf.mp hg)
    · have hsame : reportedOf key (h ++ [.reported (.evaluation e.generation) e.key v])
          = reportedOf key h := by
        simp [reportedOf, Happening.reportOf?, Ne.symm hkey]
      rw [hsame]
      exact hc.ascending key
  · intro f hf hfrep key hr
    rcases hmem f hf with ⟨hf, hne⟩ | rfl
    · rcases reported_concat.mp hr with hr | ⟨-, hg⟩
      · exact hc.unreported f hf hfrep key hr
      · exact hne hg
    · cases hfrep
  · intro key b hb
    rw [hledger] at hb
    by_cases hkey : key = e.key
    · subst hkey
      rw [Ledger.find?_set_self] at hb
      obtain rfl := Option.some.inj hb
      refine ⟨fun d hd => ?_, fun hnone => (by cases hnone), fun r hr g ha => ?_⟩
      · obtain rfl := Option.some.inj hd
        refine ⟨⟨v, by simp⟩, fun g hr => ?_⟩
        rcases reported_concat.mp hr with hr | ⟨-, rfl⟩
        · exact Nat.le_of_lt (hnewer g hr)
        · exact Nat.le_refl _
      · exact (hc.remembers e.key c hfind).newest r hr g (hasked.mp ha)
    · rw [Ledger.find?_set_of_ne hkey] at hb
      refine (hc.remembers key b hb).kept (fun g => ?_) (fun _ => hasked.mp)
        (fun f hf hk hflive => ?_) rfl fun r hr => ⟨r, hr, rfl⟩
      · rw [reported_concat, or_iff_left fun hk => hkey hk.1]
      · rcases hmem f hf with ⟨hf, -⟩ | rfl
        · exact ⟨f, hf, rfl, hk, hflive⟩
        · exact absurd hk.symm hkey
  · intro key g hn
    have hold : Newest h key g := ⟨hasked.mp hn.1, fun g' ha => hn.2 g' (ha.append _)⟩
    rcases hc.newest key g hold with hr | hr | hf
    · exact .inl (by rwa [hcurrent])
    · exact .inr (.inl (hr.append _))
    · exact .inr (.inr (hf.append _))
  · intro f hf hfrep r hr hg
    rw [hcurrent] at hr
    rcases hmem f hf with ⟨hf, -⟩ | rfl
    · exact (hc.done f hf hfrep r hr hg).imp (·.append _) (·.append _)
    · exact .inl ⟨v, by simp⟩

section Asked

variable (ho : s.Orderly) (asker : Task) (fanOut : List String)
  (hmem : ∀ f ∈ s'.evaluations,
    (∃ e ∈ s.evaluations, f.generation = e.generation ∧ f.key = e.key ∧ (f.live → e.live) ∧
      f.reporting = e.reporting) ∨
      (f.generation = s.nextGeneration ∧ f.key = key ∧ f.reporting = true))

include ho hmem

/-- An entry goes on to remember what was reported when its cell is asked for again. -/
theorem remembers_asked : Remembers (h ++ [.asked asker key s.nextGeneration fanOut]) s' key
    (((s.ledger.find? key).getD {}).request s.nextGeneration fanOut) where
  delivered d hd := by
    rw [delivered_request] at hd
    cases hb : s.ledger.find? key with
    | none =>
      rw [hb] at hd
      cases hd
    | some b =>
      rw [hb] at hd
      obtain ⟨hd, hmax⟩ := (hc.remembers key b hb).delivered d hd
      exact ⟨hd.append _, fun g hr => hmax g (reported_asked.mp hr)⟩
  undelivered hnone f hf hkey hflive g hr := by
    have hr := reported_asked.mp hr
    rcases hmem f hf with ⟨e, he, hfg, hek, hlive, -⟩ | ⟨hfg, -⟩
    · rw [hfg]
      have hekey := hek.symm.trans hkey
      cases hb : s.ledger.find? key with
      | none =>
        -- without an entry no evaluation of the cell is live
        obtain ⟨hcancelled, hbegun⟩ := ho.gone_of_none he (hekey ▸ hb)
        rcases hlive hflive with hlive | hlive
        · exact absurd (hcancelled.symm.trans hlive) (by simp)
        · exact absurd (hbegun.symm.trans hlive) (by simp)
      | some b =>
        rw [delivered_request, hb] at hnone
        exact (hc.remembers key b hb).undelivered hnone e he hekey (hlive hflive) g hr
    · rw [hfg]
      exact hc.below key g (hc.reportedAsked key g hr)
  newest r hr g ha := by
    obtain ⟨q, hq, hg, -⟩ := Fits.current_request ((s.ledger.find? key).getD {})
      s.nextGeneration fanOut
    obtain rfl := Option.some.inj (hq.symm.trans hr)
    rw [hg]
    rcases askedFor_concat.mp ha with ha | ⟨-, rfl⟩
    · exact Nat.le_of_lt (hc.below key g ha)
    · exact Nat.le_refl _

/-- Another evaluation of a cell is asked for. -/
theorem ask (hs : s'.nextGeneration = s.nextGeneration + 1)
    (hledger : s'.ledger = s.ledger.request key s.nextGeneration fanOut) :
    Chronicle (h ++ [.asked asker key s.nextGeneration fanOut]) s' := by
  obtain ⟨r, hr, hg, -⟩ := Fits.current_request ((s.ledger.find? key).getD {})
    s.nextGeneration fanOut
  have hcurrent : s'.ledger.current? key = some r := by
    rw [hledger, Ledger.current?_of_find? Ledger.find?_request_self, hr]
  have hother : ∀ {k}, k ≠ key → s'.ledger.find? k = s.ledger.find? k := by
    intro k hk
    rw [hledger, Ledger.find?_request_of_ne hk]
  constructor
  · intro k g ha
    rw [hs]
    rcases askedFor_concat.mp ha with ha | ⟨-, rfl⟩
    · exact Nat.lt_succ_of_lt (hc.below k g ha)
    · exact Nat.lt_succ_self _
  · intro f hf
    rcases hmem f hf with ⟨e, he, hfg, hfk, -⟩ | ⟨hfg, hfk, -⟩
    · rw [hfg, hfk]
      exact (hc.asked e he).append _
    · exact askedFor_concat.mpr (.inr ⟨hfk, hfg⟩)
  · intro k g hrep
    exact (hc.reportedAsked k g (reported_asked.mp hrep)).append _
  · intro k
    have hsame : reportedOf k (h ++ [.asked asker key s.nextGeneration fanOut])
        = reportedOf k h := by
      simp [reportedOf, Happening.reportOf?]
    rw [hsame]
    exact hc.ascending k
  · intro f hf hfrep k hrep
    rcases hmem f hf with ⟨e, he, hfg, -, -, hfr⟩ | ⟨hfg, -⟩
    · rw [hfg] at hrep
      exact hc.unreported e he (hfr.symm.trans hfrep) k (reported_asked.mp hrep)
    · have hlt := hc.below k _ (hc.reportedAsked k _ (reported_asked.mp hrep))
      omega
  · intro k c hfind
    by_cases hk : k = key
    · subst hk
      rw [hledger, Ledger.find?_request_self] at hfind
      obtain rfl := Option.some.inj hfind
      exact hc.remembers_asked ho asker fanOut hmem
    · rw [hother hk] at hfind
      refine (hc.remembers k c hfind).kept (fun _ => reported_asked)
        (fun g ha => (askedFor_concat.mp ha).resolve_right fun h => hk h.1)
        (fun f hf hfk hflive => ?_) rfl fun q hq => ⟨q, hq, rfl⟩
      rcases hmem f hf with ⟨e, he, hfg, hek, hlive, -⟩ | ⟨-, hfk', -⟩
      · exact ⟨e, he, hfg.symm, hek.symm.trans hfk, hlive hflive⟩
      · exact absurd (hfk.symm.trans hfk') hk
  · intro k g hn
    by_cases hk : k = key
    · subst hk
      have hge := hn.2 s.nextGeneration (askedFor_concat.mpr (.inr ⟨rfl, rfl⟩))
      have hle : g ≤ s.nextGeneration := by
        rcases askedFor_concat.mp hn.1 with ha | ⟨-, rfl⟩
        · exact Nat.le_of_lt (hc.below k g ha)
        · exact Nat.le_refl _
      exact .inl ⟨r, hcurrent, by omega⟩
    · have hold : Newest h k g :=
        ⟨(askedFor_concat.mp hn.1).resolve_right fun h => hk h.1,
          fun g' ha => hn.2 g' (ha.append _)⟩
      rcases hc.newest k g hold with hq | hrep | hf
      · exact .inl (by rwa [Ledger.current?, hother hk])
      · exact .inr (.inl (hrep.append _))
      · exact .inr (.inr (hf.append _))
  · intro f hf hfrep q hq hqg
    rcases hmem f hf with ⟨e, he, hfg, hek, -, hfr⟩ | ⟨-, -, hfr⟩
    · by_cases hk : f.key = key
      · rw [hk, hcurrent] at hq
        obtain rfl := Option.some.inj hq
        have hlt := ho.below e he
        omega
      · rw [Ledger.current?, hother hk] at hq
        rw [hek] at hq
        rw [hfg, hek]
        exact (hc.done e he (hfr.symm.trans hfrep) q hq (hqg.trans hfg)).imp
          (·.append _) (·.append _)
    · rw [hfr] at hfrep
      cases hfrep

end Asked

end Chronicle

/-! ## Every effect keeps the chronicle -/

theorem State.mem_asking {f : Evaluation} {fanOut : List String}
    (hf : f ∈ (s.asking u key fanOut).evaluations) :
    (∃ e ∈ s.evaluations, f.generation = e.generation ∧ f.key = e.key ∧ (f.live → e.live) ∧
      f.reporting = e.reporting) ∨
      (f.generation = s.nextGeneration ∧ f.key = key ∧ f.reporting = true) := by
  rcases List.mem_append.mp hf with hf | hf
  · obtain ⟨e, he, rfl⟩ := List.mem_map.mp hf
    refine .inl ⟨e, he, generation_superseded e, key_superseded e, fun hlive => ?_, ?_⟩
    · rw [Evaluation.live, stage_superseded] at hlive
      refine hlive.imp (fun hcancelled => ?_) id
      unfold superseded at hcancelled
      split at hcancelled
      · cases hcancelled
      · exact hcancelled
    · rw [Evaluation.reporting, stage_superseded, Evaluation.reporting]
  · rw [List.mem_singleton] at hf
    subst hf
    exact .inr ⟨rfl, rfl, rfl⟩

theorem Course.chronicle (ho : s.Orderly) (hopen : s.closed = false) (hc : Chronicle h s)
    (hknown : s.evaluation? e.generation = some e) (hcourse : Course u s e x s') :
    Chronicle (h ++ x.toList) s' := by
  have he := State.mem_of_evaluation? hknown
  have hentry : ∀ key c, s.ledger.find? key = some c → ∃ b, s.ledger.find? key = some b ∧
      c.delivered = b.delivered ∧ ∀ r, c.current = some r →
        ∃ q, b.current = some q ∧ q.generation = r.generation := fun key c hfind =>
    ⟨c, hfind, rfl, fun r hr => ⟨r, hr, rfl⟩⟩
  have hnewest : ∀ key q, s.ledger.current? key = some q →
      ∃ r, s.ledger.current? key = some r ∧ r.generation = q.generation := fun key q hq =>
    ⟨q, hq, rfl⟩
  -- one that was told to stop is not the newest
  have hstopped : e.cancelled = true → ∀ r, s.ledger.current? e.key = some r →
      r.generation ≠ e.generation := by
    intro hcancelled r hr hg
    obtain ⟨c, hfind, hcur⟩ := Ledger.current?_eq_some.mp hr
    have hfits := ho.fits e.key
    rw [hfind] at hfits
    have hnot := (hfits.begun_of_current (ho.pairwise_standingsOf _) hcur
      (State.standing_mem he) hg.symm).1
    exact absurd (hcancelled.symm.trans hnot) (by simp)
  cases hcourse with
  | arm hstage hs =>
    refine hc.setStage he (by simp) ?_ ?_ hentry hnewest (by intro h; cases h) hs
    · rintro f rfl hlive
      exact hlive.imp id fun h => by cases h
    · simp [Evaluation.reporting, hstage]
  | discard hstage hwhy hs => exact hc.discard (by simp) hs
  | @begin _ due fanOut ledger hstage hwanted hb hs =>
    obtain ⟨c, phase, hfind, hcur, rfl⟩ := Ledger.begin?_eq_some.mp hb
    refine hc.setStage he ?_ ?_ ?_ ?_ ?_ (by intro h; cases h) hs
    · rintro y hy
      obtain rfl := Option.some.inj hy
      rfl
    · rintro f - -
      exact .inl hwanted
    · simp [Evaluation.reporting, hstage]
    · intro key b hfind'
      by_cases hkey : key = e.key
      · subst hkey
        rw [Ledger.find?_set_self] at hfind'
        obtain rfl := Option.some.inj hfind'
        refine ⟨c, hfind, rfl, fun r hr => ⟨_, hcur, ?_⟩⟩
        obtain rfl := Option.some.inj hr
        rfl
      · rw [Ledger.find?_set_of_ne hkey] at hfind'
        exact hentry key b hfind'
    · intro key q hq
      by_cases hkey : key = e.key
      · subst hkey
        rw [Ledger.current?_of_find? hfind, hcur] at hq
        obtain rfl := Option.some.inj hq
        exact ⟨_, Ledger.current?_of_find? Ledger.find?_set_self, rfl⟩
      · refine ⟨q, ?_, rfl⟩
        rw [Ledger.current?, Ledger.find?_set_of_ne hkey]
        exact hq
  | @queue _ ticket fanOut hstage hs =>
    exact hc.setStage he (by simp) (fun _ _ _ => .inr (by rw [hstage]; rfl))
      (fun _ => by simp [Evaluation.reporting, hstage]) hentry hnewest (by intro h; cases h) hs
  | read hstage hs =>
    refine hc.setStage he ?_ (fun _ _ _ => .inr ?_) (fun _ => ?_) hentry hnewest
      (by intro h; cases h) hs
    · rintro y hy
      obtain rfl := Option.some.inj hy
      rfl
    · rcases hstage with hstage | ⟨ticket, hstage⟩ <;> (rw [hstage]; rfl)
    · rcases hstage with hstage | ⟨ticket, hstage⟩ <;> simp [Evaluation.reporting, hstage]
  | giveUp hstage hwhy hs =>
    refine hc.finish ?_ (fun r hr hg => absurd hg (hstopped hwhy r hr)) hs
    rintro y hy
    obtain rfl := Option.some.inj hy
    rfl
  | work hstage hkept hs =>
    exact hc.setStage he (by simp) (fun _ _ _ => .inr (by rw [hstage]; rfl))
      (fun _ => by simp [Evaluation.reporting, hstage]) hentry hnewest (by intro h; cases h) hs
  | stop hstage hkept hs =>
    exact hc.setStage he (by simp) (fun _ _ _ => .inr (by rw [hstage]; rfl))
      (fun _ => by simp [Evaluation.reporting, hstage]) hentry hnewest (by intro h; cases h) hs
  | report hstage hwanted hclaim hs =>
    exact hc.report he (.inl hwanted) (by simp [Evaluation.reporting, hstage]) hclaim
      hs.nextGeneration hs.ledger hs.evaluations
  | ignore hstage hwhy hs =>
    refine hc.setStage he ?_ (fun _ _ _ => .inr (by rw [hstage]; rfl))
      (fun _ => by simp [Evaluation.reporting, hstage]) hentry hnewest (fun _ r hr hg => ?_) hs
    · rintro y hy
      obtain rfl := Option.some.inj hy
      rfl
    · rcases hwhy with hcancelled | hnone
      · exact absurd hg (hstopped hcancelled r hr)
      · -- a newer report would be that of an evaluation newer than the newest
        obtain ⟨c, hfind, hcur⟩ := Ledger.current?_eq_some.mp hr
        obtain ⟨d, hd, hlt⟩ := Ledger.claim?_eq_none hnone hfind
        have hmem := hc.remembers e.key c hfind
        have hle := hmem.newest r hcur d (hc.reportedAsked _ _ (hmem.delivered d hd).1)
        omega
  | @fail _ p fanOut hstage hwanted hs =>
    refine hc.setStage he ?_ (fun _ _ _ => .inl hwanted)
      (fun _ => by simp [Evaluation.reporting, hstage]) hentry hnewest
      (fun _ r hr hg => .inr ⟨p, by simp⟩) hs
    rintro y hy
    obtain rfl := Option.some.inj hy
    rfl
  | @spread _ key keys hstage hs =>
    have halike := State.schedule_alike (u := u) hopen key []
    refine hc.ask ho _ [] (fun f hf => ?_) (hs.nextGeneration.trans halike.nextGeneration)
      (hs.ledger.trans halike.ledger)
    rw [hs.evaluations] at hf
    rcases State.mem_setStage.mp hf with ⟨hf, -⟩ | ⟨rfl, -⟩
    · rw [halike.evaluations] at hf
      exact State.mem_asking hf
    · refine .inl ⟨e, he, rfl, rfl, fun _ => .inr (by rw [hstage]; rfl), ?_⟩
      simp [Evaluation.reporting, hstage]
  | finish hstage hs =>
    exact hc.finish (by simp) (hc.done e he (by simp [Evaluation.reporting, hstage])) hs

theorem Effect.chronicle (ho : s.Orderly) (hopen : s.closed = false) (hopen' : s'.closed = false)
    (hc : Chronicle h s) (heffect : Effect u s x s') : Chronicle (h ++ x.toList) s' := by
  have hsame : (∀ y, x = some y → y.quiet = true) → s'.evaluations = s.evaluations →
      s'.nextGeneration = s.nextGeneration → s'.ledger = s.ledger →
      Chronicle (h ++ x.toList) s' := by
    intro hx hevaluations hnext hledger
    refine hc.quiet hx hnext ?_ ?_ ?_ ?_
    · rw [hevaluations]
      exact fun f hf => ⟨f, hf, rfl, rfl, id, id⟩
    · rw [hledger]
      exact fun key c hfind => ⟨c, hfind, rfl, fun r hr => ⟨r, hr, rfl⟩⟩
    · rw [hledger]
      exact fun key q hq => .inl ⟨q, hq, rfl⟩
    · rw [hevaluations, hledger]
      exact fun f hf hrep r hr hg => (hc.done f hf hrep r hr hg).imp (·.append _) (·.append _)
  cases heffect with
  | course hknown hcourse => exact hcourse.chronicle ho hopen hc hknown
  | @ask c edited job todo _ hknown hstage hs =>
    have halike := State.schedule_alike (u := u) hopen job.key [edited]
    refine hc.ask ho _ [edited] (fun f hf => ?_) (hs.nextGeneration.trans halike.nextGeneration)
      (hs.ledger.trans halike.ledger)
    rw [hs.evaluations] at hf
    exact State.mem_asking (halike.evaluations ▸ hf)
  | call hknown hcourse =>
    refine hsame ?_ hcourse.kept.1 hcourse.kept.2.1 hcourse.kept.2.2
    rintro y rfl
    cases hcourse <;> rfl
  | outside hout =>
    refine hsame ?_ hout.kept.1 hout.kept.2.1 hout.kept.2.2
    rintro y rfl
    cases hout <;> rfl
  | close hclosed =>
    subst hclosed
    cases hopen'

/-- A run of an open watch from its start is in order, and its chronicle is true. -/
theorem Run.chronicle (background : u.ruleSet.throttle.background = true) {grid : Grid}
    (run : Run u (.start u grid) h s) (hopen : s.closed = false) :
    s.Open ∧ s.Orderly ∧ Chronicle h s := by
  refine Run.induction_open background (motive := fun h s => s.Orderly ∧ Chronicle h s)
    (State.open_start u grid) ⟨State.orderly_start u grid, chronicle_start u grid⟩ ?_ run hopen
  intro h s₁ y s₂ _ ho₁ ho₂ _ heffect ⟨hord, hc⟩
  exact ⟨heffect.orderly hord ho₂.closed ho₁.closed,
    heffect.chronicle hord ho₁.closed ho₂.closed hc⟩

end CellRules.Watch
