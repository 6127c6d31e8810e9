/-
CellRules.Proofs.Watch.Threads.Order — generations, and where tasks stand.

A generation is drawn once, entered once for one cell, and begun by at most one evaluation; only an
evaluation that goes on to other cells stands within a step. `Threads.Orderly` says so, and every turn
keeps it (`Effect.orderly`).
-/
import CellRules.Proofs.Watch.Chronicle
import CellRules.Proofs.Watch.Threads.Turns

namespace CellRules.Watch

variable {u : Setup}

/-! ## Evaluations by their generation -/

namespace State

variable {s s' : State} {e : Evaluation} {g : Nat}

theorem evaluation?_congr (h : s'.evaluations = s.evaluations) (g : Nat) :
    s'.evaluation? g = s.evaluation? g := by
  rw [evaluation?, evaluation?, h]

theorem evaluation?_setStage_of_ne (h : g ≠ e.generation) (stage : Stage) :
    (s.setStage e stage).evaluation? g = s.evaluation? g := by
  rw [evaluation?, evaluation?, setStage, setEvaluation]
  induction s.evaluations with
  | nil => rfl
  | cons f rest ih =>
    by_cases hf : f.generation = e.generation
    · simpa [hf, Ne.symm h] using ih
    · simp [hf, List.find?_cons, ih]

theorem evaluation?_dropEvaluation_self : (s.dropEvaluation e).evaluation? e.generation = none := by
  simp [evaluation?, dropEvaluation, List.find?_eq_none]

theorem evaluation?_dropEvaluation_of_ne (h : g ≠ e.generation) :
    (s.dropEvaluation e).evaluation? g = s.evaluation? g := by
  rw [evaluation?, evaluation?, dropEvaluation, List.find?_filter]
  congr 1
  funext f
  by_cases hf : f.generation = g <;> simp [hf, h]

/-- A report that is left out leaves nothing to go on to. -/
theorem alike_leaveOut (u : Setup) (s : State) (e : Evaluation) :
    (e.leaveOut u s).Alike (s.setStage e (.spreading [])) :=
  Alike.setStage ((alike_note u _ _).trans (s.alike_count _)) e _

theorem evaluation?_leaveOut_self (h : s.evaluation? e.generation = some e) :
    (e.leaveOut u s).evaluation? e.generation = some { e with stage := .spreading [] } :=
  (evaluation?_congr (alike_leaveOut u s e).evaluations _).trans (evaluation?_setStage h)

theorem evaluation?_leaveOut_of_ne (h : g ≠ e.generation) :
    (e.leaveOut u s).evaluation? g = s.evaluation? g :=
  (evaluation?_congr (alike_leaveOut u s e).evaluations g).trans (evaluation?_setStage_of_ne h _)

/-- Telling one to stop changes nothing else. -/
theorem evaluation?_cancel (s : State) (generation g : Nat) :
    (s.cancel generation).evaluation? g = (s.evaluation? g).map fun e =>
      if g = generation then { e with cancelled := true } else e := by
  have hsame : (fun e : Evaluation => e.generation == g) ∘
      (fun e => if e.generation = generation then { e with cancelled := true } else e)
        = fun e => e.generation == g := by
    funext e
    rw [Function.comp]
    split <;> rfl
  rw [evaluation?, cancel, List.find?_map, hsame]
  change (s.evaluation? g).map _ = _
  cases hfind : s.evaluation? g with
  | none => rfl
  | some e =>
    have hg := generation_of_evaluation? hfind
    simp only [Option.map_some, hg]

/-- The evaluations once another one has taken the place of the newest. -/
theorem evaluation?_supersede (s : State) (key : CellKey) (previous : Option Request) (g : Nat) :
    (s.supersede u key previous).evaluation? g = s.evaluation? g ∨
      ∃ old, previous = some old ∧ u.tells old = true ∧
        (s.supersede u key previous).evaluation? g = (s.cancel old.generation).evaluation? g := by
  have hnote : ∀ (t : State) (event : Event), (t.note u event).evaluation? g = t.evaluation? g :=
    fun t event => evaluation?_congr (alike_note u t event).evaluations g
  cases previous with
  | none => exact .inl (hnote _ _)
  | some old =>
    dsimp only [supersede]
    cases hphase : old.phase with
    | pending => exact .inr ⟨old, rfl, by simp [Setup.tells, hphase], hnote _ _⟩
    | running =>
      dsimp only
      split
      · rename_i hgives
        exact .inr ⟨old, rfl, by simp [Setup.tells, hgives], hnote _ _⟩
      · exact .inl (hnote _ _)

/-- Another evaluation takes the place of the newest: at most that one is told to stop. -/
theorem alike_supersede (s : State) (key : CellKey) (previous : Option Request) :
    (s.supersede u key previous).Alike
      { s with evaluations := (s.supersede u key previous).evaluations } := by
  have hnote : ∀ (t : State) (event : Event), t.Alike { s with evaluations := t.evaluations } →
      (t.note u event).Alike { s with evaluations := (t.note u event).evaluations } := by
    intro t event ht
    have h := (alike_note u t event).trans ht
    exact ⟨h.grid, h.ledger, h.flagged, h.nextGeneration, h.closed, rfl, h.calls, h.deliveries,
      h.limiterClosed⟩
  cases previous with
  | none => exact hnote s _ (.refl s)
  | some old =>
    dsimp only [supersede]
    cases old.phase with
    | pending => exact hnote _ _ ⟨rfl, rfl, rfl, rfl, rfl, rfl, rfl, rfl, rfl⟩
    | running =>
      dsimp only
      split
      · exact hnote _ _ ⟨rfl, rfl, rfl, rfl, rfl, rfl, rfl, rfl, rfl⟩
      · exact hnote s _ (.refl s)

theorem alike_launch (s : State) (key : CellKey) (g : Nat) (previous : Option Request) :
    (s.launch u key g previous).Alike
      { s with evaluations := (s.launch u key g previous).evaluations } := by
  have h := alike_supersede (u := u) (s.count fun c => { c with scheduled := c.scheduled + 1 }) key
    previous
  exact ⟨h.grid, h.ledger, h.flagged, h.nextGeneration, h.closed, rfl, h.calls, h.deliveries,
    h.limiterClosed⟩

theorem evaluation?_launch (s : State) (key : CellKey) (g g' : Nat) (previous : Option Request) :
    (s.launch u key g previous).evaluation? g' =
      (((s.count fun c => { c with scheduled := c.scheduled + 1 }).supersede u key
        previous).evaluation? g').or (if g' = g then some { generation := g, key } else none) := by
  rw [evaluation?, launch, List.find?_append, evaluation?]
  congr 1
  by_cases hg : g' = g
  · simp [hg]
  · simp [hg, Ne.symm hg]

/-- Who is under way while another evaluation begins stays where it is; it is told to stop only if
that one takes its place. -/
theorem evaluation?_launch_of_some (key : CellKey) {g g' : Nat} (previous : Option Request)
    (h : s.evaluation? g' = some e) :
    ∃ e', (s.launch u key g previous).evaluation? g' = some e' ∧ e'.key = e.key ∧
      e'.stage = e.stage ∧ (e'.cancelled = true → e.cancelled = true ∨
        ∃ old, previous = some old ∧ g' = old.generation ∧ u.tells old = true) := by
  have h₁ : (s.count fun c => { c with scheduled := c.scheduled + 1 }).evaluation? g' = some e := h
  rw [evaluation?_launch]
  rcases evaluation?_supersede (u := u) (s.count fun c => { c with scheduled := c.scheduled + 1 })
    key previous g' with hsame | ⟨old, rfl, htells, hcancel⟩
  · rw [hsame, h₁]
    exact ⟨e, rfl, rfl, rfl, .inl⟩
  · rw [hcancel, evaluation?_cancel, h₁, Option.map_some]
    split
    · rename_i hg
      exact ⟨_, rfl, rfl, rfl, fun _ => .inr ⟨old, rfl, hg, htells⟩⟩
    · exact ⟨_, rfl, rfl, rfl, .inl⟩

theorem evaluation?_supersede_of_none {key : CellKey} {g : Nat} {previous : Option Request}
    (h : s.evaluation? g = none) : ((s.count fun c => { c with
      scheduled := c.scheduled + 1 }).supersede u key previous).evaluation? g = none := by
  have h₁ : (s.count fun c => { c with scheduled := c.scheduled + 1 }).evaluation? g = none := h
  rcases evaluation?_supersede (u := u) (s.count fun c => { c with scheduled := c.scheduled + 1 })
    key previous g with hsame | ⟨old, -, -, hcancel⟩
  · rw [hsame, h₁]
  · rw [hcancel, evaluation?_cancel, h₁]
    rfl

theorem evaluation?_launch_self (key : CellKey) {g : Nat} (previous : Option Request)
    (h : s.evaluation? g = none) :
    (s.launch u key g previous).evaluation? g = some { generation := g, key } := by
  rw [evaluation?_launch, evaluation?_supersede_of_none h, if_pos rfl]
  rfl

theorem evaluation?_launch_of_ne (key : CellKey) {g g' : Nat} (previous : Option Request)
    (h : s.evaluation? g' = none) (hne : g' ≠ g) :
    (s.launch u key g previous).evaluation? g' = none := by
  rw [evaluation?_launch, evaluation?_supersede_of_none h, if_neg hne]
  rfl

end State

namespace Threads

variable {t : Threads} {e : Evaluation} {g g' : Nat} (key : CellKey) (previous : Option Request)
  (told : Bool)

theorem evaluation?_launch_of_some (h : t.state.evaluation? g' = some e) :
    ∃ e', (t.launch u key g previous told).state.evaluation? g' = some e' ∧ e'.key = e.key ∧
      e'.stage = e.stage ∧ (e'.cancelled = true → e.cancelled = true ∨ (told = true ∧ g' = g) ∨
        ∃ old, previous = some old ∧ g' = old.generation ∧ u.tells old = true) := by
  obtain ⟨e', he', hkey, hstage, hcancelled⟩ :=
    State.evaluation?_launch_of_some (u := u) key (g := g) previous h
  cases told with
  | false => exact ⟨e', he', hkey, hstage, fun hc => (hcancelled hc).imp id .inr⟩
  | true =>
    have hafter : (t.launch u key g previous true).state.evaluation? g' = some
        (if g' = g then { e' with cancelled := true } else e') := by
      simp only [launch, if_true, State.evaluation?_cancel, he', Option.map_some]
    rw [hafter]
    split
    · rename_i hg
      exact ⟨_, rfl, hkey, hstage, fun _ => .inr (.inl ⟨rfl, hg⟩)⟩
    · exact ⟨_, rfl, hkey, hstage, fun hc => (hcancelled hc).imp id .inr⟩

/-- The evaluation that begins. -/
theorem evaluation?_launch_self (h : t.state.evaluation? g = none) :
    ∃ e, (t.launch u key g previous told).state.evaluation? g = some e ∧ e.key = key ∧
      e.stage = .asked ∧ (e.cancelled = true → told = true) := by
  have he := State.evaluation?_launch_self (u := u) key previous h
  cases told with
  | false => exact ⟨_, he, rfl, rfl, id⟩
  | true =>
    have hafter : (t.launch u key g previous true).state.evaluation? g = some
        { generation := g, key, cancelled := true } := by
      simp only [launch, if_true, State.evaluation?_cancel, he, Option.map_some]
    exact ⟨_, hafter, rfl, rfl, fun _ => rfl⟩

theorem evaluation?_launch_of_ne (h : t.state.evaluation? g' = none) (hne : g' ≠ g) :
    (t.launch u key g previous told).state.evaluation? g' = none := by
  have hnone := State.evaluation?_launch_of_ne (u := u) key previous h hne
  cases told with
  | false => exact hnone
  | true => simp only [launch, if_true, State.evaluation?_cancel, hnone, Option.map_none]

/-- A task that stands within a step stays there while an evaluation begins; at most it learns that
its own evaluation is told to stop. -/
theorem position?_launch (t : Threads) (key : CellKey) (g : Nat) (previous : Option Request)
    (told : Bool) (task : Task) :
    (t.launch u key g previous told).position? task = t.position? task ∨
      ∃ old, previous = some old ∧ (t.launch u key g previous told).position? task
        = (t.position? task).map (Position.tell old.generation) := by
  cases previous with
  | none => exact .inl rfl
  | some old =>
    by_cases htells : u.tells old = true
    · refine .inr ⟨old, rfl, ?_⟩
      have hsame : (fun x : Task × Position => x.1 == task) ∘
          (fun x : Task × Position => (x.1, x.2.tell old.generation)) = fun x => x.1 == task := rfl
      simp only [position?, launch, htells, if_true, List.find?_map, hsame, Option.map_map]
      rfl
    · left
      simp only [position?, launch, if_neg htells]

end Threads

/-! ## Generations and positions -/

/-- An evaluation is asked for. -/
def Happening.asks : Happening → Bool
  | .asked _ _ _ _ => true
  | _ => false

theorem Happening.asks_of_quiet {y : Happening} (h : y.quiet = true) : y.asks = false := by
  cases y <;> first | rfl | cases h

theorem askedFor_same {h : List Happening} {x : Option Happening} {key : CellKey} {g : Nat}
    (hx : ∀ y, x = some y → y.asks = false) : AskedFor (h ++ x.toList) key g ↔ AskedFor h key g := by
  refine ⟨?_, fun ha => ha.append _⟩
  rintro ⟨asker, fanOut, ha⟩
  rcases List.mem_append.mp ha with ha | ha
  · exact ⟨asker, fanOut, ha⟩
  · cases hx _ (Option.mem_toList.mp ha)

/-- The task holds a generation that it has drawn. -/
def Position.numbered : Position → Bool
  | .drawn _ _ _ | .entered _ _ _ _ => true
  | _ => false

/-- Who is to follow once a report is delivered that is not delivered yet. -/
def Position.next? : Position → Option Following
  | .admitted _ next | .claimed _ next => some next
  | _ => none

namespace Threads

/-- Generations are drawn and entered once, and evaluations stand within a step only where they go
on to other cells. -/
structure Orderly (t : Threads) (h : List Happening) : Prop where
  below : ∀ key g, AskedFor h key g → g < t.state.nextGeneration
  unique : ∀ key key' g, AskedFor h key g → AskedFor h key' g → key = key'
  drawn : ∀ task key fanOut g, t.position? task = some (.drawn key fanOut g) →
    g < t.state.nextGeneration ∧ ∀ key', ¬AskedFor h key' g
  drawnOnce : ∀ task task' key key' fanOut fanOut' g, t.position? task = some (.drawn key fanOut g) →
    t.position? task' = some (.drawn key' fanOut' g) → task = task'
  entered : ∀ task key g previous told, t.position? task = some (.entered key g previous told) →
    AskedFor h key g ∧ t.state.evaluation? g = none
  enteredOnce : ∀ task task' key key' g previous previous' told told',
    t.position? task = some (.entered key g previous told) →
    t.position? task' = some (.entered key' g previous' told') → task = task'
  asked : ∀ g e, t.state.evaluation? g = some e → AskedFor h e.key g
  spreading : ∀ g p, t.position? (.evaluation g) = some p → ∃ e keys,
    t.state.evaluation? g = some e ∧ e.stage = .spreading keys ∧
      ∀ next, p.next? = some next → next.key = e.key
  reporting : ∀ task p, t.position? task = some p → p.next? ≠ none → ∃ g, task = .evaluation g

variable {t t' : Threads} {h : List Happening} {x : Option Happening} {task : Task}

theorem orderly_whole (s : State) (hs : s.evaluations = []) : (whole s).Orderly [] where
  below _ _ ha := by
    obtain ⟨_, _, ha⟩ := ha
    cases ha
  unique _ _ _ ha := by
    obtain ⟨_, _, ha⟩ := ha
    cases ha
  drawn _ _ _ _ hp := by cases hp
  drawnOnce _ _ _ _ _ _ _ hp := by cases hp
  entered _ _ _ _ _ hp := by cases hp
  enteredOnce _ _ _ _ _ _ _ _ _ hp := by cases hp
  asked g e he := by simp [whole, State.evaluation?, hs] at he
  spreading _ _ hp := by cases hp
  reporting _ _ hp := by cases hp

namespace Orderly

variable (ho : t.Orderly h)

include ho

/-- A turn of a task that draws nothing and enters nothing. -/
theorem keep (task : Task) (hnext : t'.state.nextGeneration = t.state.nextGeneration)
    (hx : ∀ y, x = some y → y.asks = false)
    (hothers : ∀ other, other ≠ task → t'.position? other = t.position? other)
    (hevaluations : ∀ g, .evaluation g ≠ task →
      t'.state.evaluation? g = t.state.evaluation? g)
    (hown : ∀ g e', task = .evaluation g → t'.state.evaluation? g = some e' →
      ∃ e, t.state.evaluation? g = some e ∧ e'.key = e.key)
    (hstands : ∀ p, t'.position? task = some p → p.numbered = false ∧
      (p.next? ≠ none → ∃ g, task = .evaluation g) ∧
      ∀ g, task = .evaluation g → ∃ e keys, t'.state.evaluation? g = some e ∧
        e.stage = .spreading keys ∧ ∀ next, p.next? = some next → next.key = e.key) :
    t'.Orderly (h ++ x.toList) := by
  have hasked : ∀ {key g}, AskedFor (h ++ x.toList) key g ↔ AskedFor h key g := askedFor_same hx
  have hback : ∀ {other p}, t'.position? other = some p → p.numbered = true →
      t.position? other = some p := by
    intro other p hp hnumbered
    by_cases hother : other = task
    · rw [hother] at hp
      rw [(hstands p hp).1] at hnumbered
      cases hnumbered
    · rwa [← hothers other hother]
  have hold : ∀ {g e'}, t'.state.evaluation? g = some e' →
      ∃ e, t.state.evaluation? g = some e ∧ e'.key = e.key := by
    intro g e' he'
    by_cases hg : .evaluation g = task
    · exact hown g e' hg.symm he'
    · exact ⟨e', (hevaluations g hg).symm.trans he', rfl⟩
  constructor
  case below =>
    intro key g ha
    rw [hnext]
    exact ho.below key g (hasked.mp ha)
  case unique =>
    intro key key' g ha ha'
    exact ho.unique key key' g (hasked.mp ha) (hasked.mp ha')
  case drawn =>
    intro other key fanOut g hp
    obtain ⟨hlt, hnone⟩ := ho.drawn other key fanOut g (hback hp rfl)
    exact ⟨hnext ▸ hlt, fun key' ha => hnone key' (hasked.mp ha)⟩
  case drawnOnce =>
    intro a b key key' fanOut fanOut' g ha hb
    exact ho.drawnOnce a b key key' fanOut fanOut' g (hback ha rfl) (hback hb rfl)
  case entered =>
    intro other key g previous told hp
    obtain ⟨ha, hnone⟩ := ho.entered other key g previous told (hback hp rfl)
    refine ⟨hasked.mpr ha, ?_⟩
    cases hg : t'.state.evaluation? g with
    | none => rfl
    | some e' =>
      obtain ⟨e, he, -⟩ := hold hg
      cases hnone.symm.trans he
  case enteredOnce =>
    intro a b key key' g previous previous' told told' ha hb
    exact ho.enteredOnce a b key key' g previous previous' told told' (hback ha rfl) (hback hb rfl)
  case asked =>
    intro g e' he'
    obtain ⟨e, he, hkey⟩ := hold he'
    rw [hkey]
    exact hasked.mpr (ho.asked g e he)
  case spreading =>
    intro g p hp
    by_cases hg : .evaluation g = task
    · rw [hg] at hp
      exact (hstands p hp).2.2 g hg.symm
    · rw [hothers _ hg] at hp
      rw [hevaluations g hg]
      exact ho.spreading g p hp
  case reporting =>
    intro other p hp hnext
    by_cases hother : other = task
    · subst hother
      exact (hstands p hp).2.1 hnext
    · rw [hothers other hother] at hp
      exact ho.reporting other p hp hnext

/-- A task takes its stand where it neither draws nor enters. -/
theorem stand {task : Task} {p : Position} {s' : State}
    (hnext : s'.nextGeneration = t.state.nextGeneration) (hx : ∀ y, x = some y → y.asks = false)
    (hevaluations : ∀ g, .evaluation g ≠ task → s'.evaluation? g = t.state.evaluation? g)
    (hnumbered : p.numbered = false) (hreporting : p.next? ≠ none → ∃ g, task = .evaluation g)
    (hspreading : ∀ g, task = .evaluation g → ∃ e e' keys, t.state.evaluation? g = some e ∧
      s'.evaluation? g = some e' ∧ e'.key = e.key ∧ e'.stage = .spreading keys ∧
      ∀ next, p.next? = some next → next.key = e.key) :
    ((t.stand task p).withState s').Orderly (h ++ x.toList) := by
  refine ho.keep task hnext hx (fun _ hne => position?_stand_of_ne hne) hevaluations ?_ ?_
  · intro g f htask hf
    obtain ⟨e, e', -, he, he', hkey, -⟩ := hspreading g htask
    obtain rfl := Option.some.inj (he'.symm.trans hf)
    exact ⟨e, he, hkey⟩
  · intro p' hp
    obtain rfl := Option.some.inj (hp.symm.trans position?_stand_self)
    refine ⟨hnumbered, hreporting, fun g htask => ?_⟩
    obtain ⟨e, e', keys, he, he', hkey, hstage, hfollow⟩ := hspreading g htask
    exact ⟨e', keys, he', hstage, fun next hn => (hfollow next hn).trans hkey.symm⟩

/-- A task comes to the end of its step. -/
theorem leave {task : Task} {s' : State} (hnext : s'.nextGeneration = t.state.nextGeneration)
    (hx : ∀ y, x = some y → y.asks = false)
    (hevaluations : ∀ g, .evaluation g ≠ task → s'.evaluation? g = t.state.evaluation? g)
    (hown : ∀ g e', task = .evaluation g → s'.evaluation? g = some e' →
      ∃ e, t.state.evaluation? g = some e ∧ e'.key = e.key) :
    ((t.leave task).withState s').Orderly (h ++ x.toList) := by
  refine ho.keep task hnext hx (fun _ hne => position?_leave_of_ne hne) hevaluations hown ?_
  intro p hp
  cases position?_leave_self.symm.trans hp

/-- Nobody moves. -/
theorem congr (hnext : t'.state.nextGeneration = t.state.nextGeneration)
    (hx : ∀ y, x = some y → y.asks = false)
    (hpositions : ∀ task, t'.position? task = t.position? task)
    (hevaluations : ∀ g, t'.state.evaluation? g = t.state.evaluation? g) :
    t'.Orderly (h ++ x.toList) := by
  have hasked : ∀ {key g}, AskedFor (h ++ x.toList) key g ↔ AskedFor h key g := askedFor_same hx
  constructor
  all_goals simp only [hnext, hpositions, hevaluations, hasked]
  exacts [ho.below, ho.unique, ho.drawn, ho.drawnOnce, ho.entered, ho.enteredOnce, ho.asked,
    ho.spreading, ho.reporting]

end Orderly

end Threads

/-! ## Every turn keeps the order -/

namespace Stride

variable {s s' : State} {e : Evaluation} {x : Option Happening} {g : Nat}

/-- A step of one evaluation is nothing to the others. -/
theorem others (h : Stride u s e x s') (hne : g ≠ e.generation) :
    s'.evaluation? g = s.evaluation? g := by
  cases h with
  | begins _ _ state =>
    rw [State.evaluation?_congr state.evaluations, State.evaluation?_setStage_of_ne hne]
    rfl
  | arms _ state | queues _ state | reads _ state | goesOn _ _ state | ends _ _ state
  | abandons _ _ state | fails _ state | skips _ _ state =>
    rw [State.evaluation?_congr state.evaluations, State.evaluation?_setStage_of_ne hne]
  | drops _ _ state | givesUp _ _ state | finishes _ state =>
    exact (State.evaluation?_congr state.evaluations g).trans
      (State.evaluation?_dropEvaluation_of_ne hne)

/-- The evaluation itself goes to another stage, or is over. -/
theorem own (h : Stride u s e x s') (he : s.evaluation? e.generation = some e) :
    s'.evaluation? e.generation = none ∨
      ∃ stage, s'.evaluation? e.generation = some { e with stage } := by
  have hset : ∀ {t : State} {stage : Stage}, t.evaluation? e.generation = some e →
      s'.Alike (t.setStage e stage) → s'.evaluation? e.generation = some { e with stage } :=
    fun ht state => (State.evaluation?_congr state.evaluations _).trans
      (State.evaluation?_setStage ht)
  cases h with
  | @begins _ ledger _ _ _ state => exact .inr ⟨_, hset (t := { s with ledger }) he state⟩
  | arms _ state | queues _ state | reads _ state | goesOn _ _ state | ends _ _ state
  | abandons _ _ state | fails _ state | skips _ _ state => exact .inr ⟨_, hset he state⟩
  | drops _ _ state | givesUp _ _ state | finishes _ state =>
    exact .inl ((State.evaluation?_congr state.evaluations _).trans
      State.evaluation?_dropEvaluation_self)

theorem nextGeneration (h : Stride u s e x s') : s'.nextGeneration = s.nextGeneration := by
  cases h with
  | arms _ state | begins _ _ state | drops _ _ state | queues _ state | reads _ state
  | givesUp _ _ state | goesOn _ _ state | ends _ _ state | abandons _ _ state | fails _ state
  | skips _ _ state | finishes _ state => exact state.nextGeneration

/-- It is nothing to the entries of other cells. -/
theorem find?_of_ne {key : CellKey} (h : Stride u s e x s') (hkey : e.key ≠ key) :
    s'.ledger.find? key = s.ledger.find? key := by
  cases h with
  | arms _ state | queues _ state | reads _ state | goesOn _ _ state | ends _ _ state
  | skips _ _ state | drops _ _ state | abandons _ _ state | fails _ state =>
    rw [state.ledger]
    rfl
  | begins _ hnewest state =>
    obtain ⟨c, phase, -, -, rfl⟩ := Ledger.begin?_eq_some.mp hnewest
    rw [state.ledger]
    exact Ledger.find?_set_of_ne (Ne.symm hkey)
  | givesUp _ _ state | finishes _ state =>
    rw [state.ledger]
    exact Ledger.find?_finish_of_ne (Ne.symm hkey)

/-- It asks for nothing and reports nothing. -/
theorem quiet (h : Stride u s e x s') : ∀ y, x = some y → y.quiet = true := by
  rintro y rfl
  cases h <;> rfl

end Stride

namespace Call

variable {s s' : State} {c : Call} {x : Option Happening}

/-- A step that a call takes whole asks for no evaluation. -/
theorem Advance.kept (hc : s.call? c.id = some c) (hwhole : c.open? u s = none)
    (h : c.Advance u s s') :
    s'.evaluations = s.evaluations ∧ s'.nextGeneration = s.nextGeneration ∧
      s'.ledger = s.ledger := by
  rcases h.split hc with ⟨background, edited, job, todo, hstage, rfl⟩ | hedit | hcall
  · have hclosed : s.closed = true := by
      by_contra hopen
      simp [open?, hstage, background, hopen] at hwhole
    rw [State.schedule, if_pos hclosed]
    exact ⟨rfl, rfl, rfl⟩
  · exact hedit.kept
  · exact hcall.kept

/-- Where no generation is drawn nothing is asked for. -/
theorem quiet_of_seen {y : Happening} (hsame : s'.nextGeneration = s.nextGeneration)
    (hy : c.seen s s' = some y) : y.quiet = true := by
  cases y with
  | asked asker key generation fanOut =>
    cases hstage : c.stage with
    | editing edited todo current =>
      cases current with
      | none =>
        cases todo with
        | nil => simp [seen, hstage] at hy
        | cons job todo =>
          simp only [seen, hstage, hsame, Nat.lt_irrefl, if_false] at hy
          split at hy <;> cases hy
      | some current =>
        simp only [seen, hstage] at hy
        split at hy <;> cases hy
    | called =>
      simp only [seen, hstage] at hy
      split at hy <;> cases hy
    | delivering todo cells => simp [seen, hstage] at hy
    | edited _ | surveying _ | judging _ | reported _ => simp [seen, hstage] at hy
  | reported reporter key v =>
    obtain rfl := (seen_self hy).2 _ _ _ rfl
    rfl
  | wrote | pushed | told | calledAll | closed | began | read | surveyed | dropped | failed => rfl

/-- The first piece of a step leaves evaluations alone, and closes nothing. -/
theorem Opens.kept {s₁ : State} {p : Position} (h : c.Opens u s s₁ p) :
    s₁.evaluations = s.evaluations ∧ s₁.nextGeneration = s.nextGeneration ∧
      s₁.ledger = s.ledger ∧ s₁.closed = s.closed ∧ s₁.limiter = s.limiter := by
  cases h <;> exact ⟨rfl, rfl, rfl, rfl, rfl⟩

/-- After it the call holds neither a generation nor a report that is to be delivered. -/
theorem Opens.position {s₁ : State} {p : Position} (h : c.Opens u s s₁ p) :
    p.numbered = false ∧ p.next? = none := by
  cases h <;> exact ⟨rfl, rfl⟩

end Call

/-- What comes from outside leaves evaluations and ledger alone. -/
theorem Move.kept_of_outer {s s' : State} {m : Move} (houter : m.outer = true)
    (hm : s.move? u m = some s') :
    s'.evaluations = s.evaluations ∧ s'.nextGeneration = s.nextGeneration ∧
      s'.ledger = s.ledger := by
  cases m with
  | setCell row column cell =>
    obtain ⟨grid, -, rfl⟩ := State.set_of_move? hm
    exact ⟨rfl, rfl, rfl⟩
  | pushRow values | edit row column | validateAll | pass millis =>
    obtain rfl := Option.some.inj hm
    exact ⟨rfl, rfl, rfl⟩
  | shutDown | step task | takeSlot generation => cases houter

theorem Move.quiet_of_outer {s s' : State} {m : Move} (houter : m.outer = true) :
    ∀ y, seen s m s' = some y → y.quiet = true := by
  intro y hy
  cases m with
  | setCell | pushRow | validateAll =>
    cases hy
    rfl
  | edit row column =>
    simp only [seen] at hy
    split at hy <;> cases hy
    rfl
  | pass => cases hy
  | shutDown | step task | takeSlot generation => cases houter

namespace State.Follows

variable {s s' : State} {task : Task} {g : Nat} {e e' : Evaluation}

theorem nextGeneration (h : s.Follows task s') : s'.nextGeneration = s.nextGeneration := by
  cases h with
  | evaluation _ state => exact state.nextGeneration
  | call _ _ state => exact state.nextGeneration
  | none => rfl

theorem ledger (h : s.Follows task s') : s'.ledger = s.ledger := by
  cases h with
  | evaluation _ state => exact state.ledger
  | call _ _ state => exact state.ledger
  | none => rfl

theorem deliveries (h : s.Follows task s') : s'.deliveries = s.deliveries := by
  cases h with
  | evaluation _ state => exact state.deliveries
  | call _ _ state => exact state.deliveries
  | none => rfl

theorem gates (h : s.Follows task s') :
    s'.closed = s.closed ∧ s'.limiter.closed = s.limiter.closed := by
  cases h with
  | evaluation _ state => exact ⟨state.closed, state.limiterClosed⟩
  | call _ _ state => exact ⟨state.closed, state.limiterClosed⟩
  | none => exact ⟨rfl, rfl⟩

/-- The other evaluations stay where they are. -/
theorem others (h : s.Follows task s') (hg : .evaluation g ≠ task) :
    s'.evaluation? g = s.evaluation? g := by
  cases h with
  | evaluation _ state =>
    exact (evaluation?_congr state.evaluations g).trans
      (evaluation?_setStage_of_ne (by simpa using hg) _)
  | call _ _ state => exact evaluation?_congr state.evaluations g
  | none => rfl

/-- An evaluation that goes on to other cells does so with those who follow. -/
theorem own (h : s.Follows (.evaluation g) s') (he : s.evaluation? g = some e) :
    s'.evaluation? g = some e ∨
      ∃ keys, s'.evaluation? g = some { e with stage := .spreading keys } := by
  cases h with
  | @evaluation f keys _ known state =>
    obtain rfl := Option.some.inj (known.symm.trans he)
    exact .inr ⟨keys, (evaluation?_congr state.evaluations _).trans (evaluation?_setStage known)⟩
  | none => exact .inl he

theorem back (h : s.Follows task s') (he : s'.evaluation? g = some e') :
    ∃ e, s.evaluation? g = some e ∧ e'.key = e.key ∧ e'.cancelled = e.cancelled := by
  by_cases hg : .evaluation g = task
  · subst hg
    cases hold : s.evaluation? g with
    | some e =>
      rcases h.own hold with hsame | ⟨keys, hsame⟩ <;>
        (have heq := Option.some.inj (he.symm.trans hsame); exact ⟨e, rfl, by rw [heq], by rw [heq]⟩)
    | none =>
      cases h with
      | evaluation known => cases hold.symm.trans known
      | none => cases hold.symm.trans he
  · exact ⟨e', (h.others hg).symm.trans he, rfl, rfl⟩

end State.Follows

namespace Threads

variable {t t' : Threads} {h : List Happening} {x : Option Happening}

/-- Where a task stands that stood somewhere else before an evaluation began. -/
theorem position_of_launch {key : CellKey} {g : Nat} {previous : Option Request} {told : Bool}
    {task : Task} {p : Position}
    (hp : (t.launch u key g previous told).position? task = some p) :
    t.position? task = some p ∨ ∃ k n old was is, t.position? task = some (.entered k n old was) ∧
      p = .entered k n old is ∧
      (is = true → was = true ∨ ∃ r, previous = some r ∧ n = r.generation) := by
  rcases position?_launch (u := u) t key g previous told task with hsame | ⟨r, rfl, htold⟩
  · exact .inl (hsame.symm.trans hp)
  · obtain ⟨p₀, hp₀, rfl⟩ := Option.map_eq_some_iff.mp (htold.symm.trans hp)
    cases p₀ with
    | entered k n old was =>
      refine .inr ⟨k, n, old, was, _, hp₀, rfl, fun h => ?_⟩
      exact (Bool.or_eq_true_iff.mp h).imp id fun hn => ⟨r, rfl, by simpa using hn⟩
    | asks | drawn | admitted | claimed | handed | recorded | looks => exact .inl hp₀

/-- A task stands where it stood, though it may have been told to stop since. -/
structure Stood (p₀ p : Position) : Prop where
  next : p.next? = p₀.next?
  drawn : ∀ k columns n, p = .drawn k columns n → p₀ = .drawn k columns n
  entered : ∀ k n old was, p = .entered k n old was → ∃ was₀, p₀ = .entered k n old was₀

theorem stood_of_launch {key : CellKey} {g : Nat} {previous : Option Request} {told : Bool}
    {task other : Task} {p : Position}
    (hp : ((t.leave task).launch u key g previous told).position? other = some p) :
    other ≠ task ∧ ∃ p₀, t.position? other = some p₀ ∧ Stood p₀ p := by
  rcases position_of_launch hp with hsame | ⟨k, n, old, was, is, hwas, rfl, -⟩
  · obtain ⟨hne, hold⟩ := position_of_leave hsame
    exact ⟨hne, p, hold, rfl, fun _ _ _ => id, fun _ _ _ was h => ⟨was, h⟩⟩
  · obtain ⟨hne, hold⟩ := position_of_leave hwas
    refine ⟨hne, _, hold, rfl, ?_, ?_⟩
    · rintro _ _ _ ⟨⟩
    · rintro _ _ _ _ ⟨⟩
      exact ⟨was, rfl⟩

/-- One that has left its step is not brought back. -/
theorem position_launch_none {key : CellKey} {g : Nat} {previous : Option Request} {told : Bool}
    {task : Task} (hp : t.position? task = none) :
    (t.launch u key g previous told).position? task = none := by
  rcases position?_launch (u := u) t key g previous told task with hsame | ⟨r, rfl, htold⟩
  · exact hsame.trans hp
  · rw [htold, hp]
    rfl

/-- While an evaluation begins nothing else changes but who is told to stop. -/
theorem alike_launch (t : Threads) (key : CellKey) (g : Nat) (previous : Option Request)
    (told : Bool) : (t.launch u key g previous told).state.Alike { t.state with
      evaluations := (t.launch u key g previous told).state.evaluations } := by
  have hlaunch := t.state.alike_launch (u := u) key g previous
  cases told with
  | false => exact hlaunch
  | true =>
    exact ⟨hlaunch.grid, hlaunch.ledger, hlaunch.flagged, hlaunch.nextGeneration, hlaunch.closed,
      rfl, hlaunch.calls, hlaunch.deliveries, hlaunch.limiterClosed⟩

theorem nextGeneration_launch (key : CellKey) (g : Nat) (previous : Option Request) (told : Bool) :
    (t.launch u key g previous told).state.nextGeneration = t.state.nextGeneration :=
  (alike_launch t key g previous told).nextGeneration

namespace Orderly

variable (ho : t.Orderly h) {task : Task} {key : CellKey} {fanOut : List String} {g : Nat}
  {previous : Option Request} {told : Bool}

include ho

/-- A generation is drawn. -/
theorem draw (hp : t.position? task = some (.asks key fanOut)) :
    ((t.stand task (.drawn key fanOut t.state.nextGeneration)).withState t.state.draw).Orderly
      h where
  below k n ha := Nat.lt_succ_of_lt (ho.below k n ha)
  unique := ho.unique
  drawn other k columns n hp' := by
    rcases position_of_stand hp' with ⟨-, heq⟩ | ⟨-, hold⟩
    · cases heq
      exact ⟨Nat.lt_succ_self _, fun k ha => Nat.lt_irrefl _ (ho.below k _ ha)⟩
    · obtain ⟨hlt, hnone⟩ := ho.drawn other k columns n hold
      exact ⟨Nat.lt_succ_of_lt hlt, hnone⟩
  drawnOnce a b k k' columns columns' n ha hb := by
    -- a generation that somebody has drawn before is smaller
    rcases position_of_stand ha with ⟨ha, heq⟩ | ⟨-, ha⟩ <;>
      rcases position_of_stand hb with ⟨hb, heq'⟩ | ⟨-, hb⟩
    · rw [ha, hb]
    · cases heq
      exact absurd (ho.drawn b k' columns' _ hb).1 (Nat.lt_irrefl _)
    · cases heq'
      exact absurd (ho.drawn a k columns _ ha).1 (Nat.lt_irrefl _)
    · exact ho.drawnOnce a b k k' columns columns' n ha hb
  entered other k n old was hp' := by
    rcases position_of_stand hp' with ⟨-, heq⟩ | ⟨-, hold⟩
    · cases heq
    · exact ho.entered other k n old was hold
  enteredOnce a b k k' n old old' was was' ha hb := by
    rcases position_of_stand ha with ⟨-, heq⟩ | ⟨-, ha⟩
    · cases heq
    rcases position_of_stand hb with ⟨-, heq⟩ | ⟨-, hb⟩
    · cases heq
    exact ho.enteredOnce a b k k' n old old' was was' ha hb
  asked := ho.asked
  spreading n p hp' := by
    rcases position_of_stand hp' with ⟨htask, rfl⟩ | ⟨-, hold⟩
    · obtain ⟨e, keys, he, hstage, -⟩ := ho.spreading n _ (htask ▸ hp)
      exact ⟨e, keys, he, hstage, fun _ hnext => by cases hnext⟩
    · exact ho.spreading n p hold
  reporting other p hp' hnext := by
    rcases position_of_stand hp' with ⟨-, rfl⟩ | ⟨-, hold⟩
    · exact absurd rfl hnext
    · exact ho.reporting other p hold hnext

/-- A generation that is drawn and not entered is nobody's. -/
theorem gone_of_drawn (hp : t.position? task = some (.drawn key fanOut g)) :
    t.state.evaluation? g = none := by
  by_contra hsome
  obtain ⟨e, he⟩ := Option.ne_none_iff_exists'.mp hsome
  exact (ho.drawn task key fanOut g hp).2 e.key (ho.asked g e he)

/-- An evaluation is entered. -/
theorem enter (hp : t.position? task = some (.drawn key fanOut g)) :
    ((t.stand task (.entered key g previous false)).withState (t.state.enter key g fanOut)).Orderly
      (h ++ [.asked task key g fanOut]) where
  below k n ha := by
    rcases askedFor_concat.mp ha with ha | ⟨-, rfl⟩
    · exact ho.below k n ha
    · exact (ho.drawn task key fanOut _ hp).1
  unique k k' n ha ha' := by
    have hfresh := (ho.drawn task key fanOut g hp).2
    rcases askedFor_concat.mp ha with hold | ⟨rfl, rfl⟩ <;>
      rcases askedFor_concat.mp ha' with hold' | ⟨rfl, hn⟩
    · exact ho.unique k k' n hold hold'
    · exact absurd (hn ▸ hold) (hfresh k)
    · exact absurd hold' (hfresh k')
    · rfl
  drawn other k columns n hp' := by
    rcases position_of_stand hp' with ⟨-, heq⟩ | ⟨hother, hold⟩
    · cases heq
    obtain ⟨hn, hnone⟩ := ho.drawn other k columns n hold
    refine ⟨hn, fun k' ha => ?_⟩
    rcases askedFor_concat.mp ha with hasked | ⟨-, rfl⟩
    · exact hnone k' hasked
    · exact hother (ho.drawnOnce other task k key columns fanOut _ hold hp)
  drawnOnce a b k k' columns columns' n ha hb := by
    rcases position_of_stand ha with ⟨-, heq⟩ | ⟨-, ha⟩
    · cases heq
    rcases position_of_stand hb with ⟨-, heq⟩ | ⟨-, hb⟩
    · cases heq
    exact ho.drawnOnce a b k k' columns columns' n ha hb
  entered other k n old was hp' := by
    rcases position_of_stand hp' with ⟨-, heq⟩ | ⟨-, hold⟩
    · cases heq
      exact ⟨askedFor_concat.mpr (.inr ⟨rfl, rfl⟩), ho.gone_of_drawn hp⟩
    · obtain ⟨ha, hnone⟩ := ho.entered other k n old was hold
      exact ⟨ha.append _, hnone⟩
  enteredOnce a b k k' n old old' was was' ha hb := by
    -- whoever was entered before was asked for, as this one was not
    have hfresh := (ho.drawn task key fanOut g hp).2
    rcases position_of_stand ha with ⟨ha, heq⟩ | ⟨-, ha⟩ <;>
      rcases position_of_stand hb with ⟨hb, heq'⟩ | ⟨-, hb⟩
    · rw [ha, hb]
    · cases heq
      exact absurd (ho.entered b k' g old' was' hb).1 (hfresh k')
    · cases heq'
      exact absurd (ho.entered a k g old was ha).1 (hfresh k)
    · exact ho.enteredOnce a b k k' n old old' was was' ha hb
  asked n e he := (ho.asked n e he).append _
  spreading n p hp' := by
    rcases position_of_stand hp' with ⟨htask, rfl⟩ | ⟨-, hold⟩
    · obtain ⟨e, keys, he, hstage, -⟩ := ho.spreading n _ (htask ▸ hp)
      exact ⟨e, keys, he, hstage, fun _ hnext => by cases hnext⟩
    · exact ho.spreading n p hold
  reporting other p hp' hnext := by
    rcases position_of_stand hp' with ⟨-, rfl⟩ | ⟨-, hold⟩
    · exact absurd rfl hnext
    · exact ho.reporting other p hold hnext

/-- An evaluation that was entered begins. -/
theorem launch (hp : t.position? task = some (.entered key g previous told)) :
    ((t.leave task).launch u key g previous told).Orderly h where
  below k n ha := by
    rw [nextGeneration_launch]
    exact ho.below k n ha
  unique := ho.unique
  drawn other k columns n hp' := by
    obtain ⟨-, p₀, hp₀, hstood⟩ := stood_of_launch hp'
    obtain rfl := hstood.drawn k columns n rfl
    rw [nextGeneration_launch]
    exact ho.drawn other k columns n hp₀
  drawnOnce a b k k' columns columns' n ha hb := by
    obtain ⟨-, p₀, hp₀, hstood⟩ := stood_of_launch ha
    obtain ⟨-, p₁, hp₁, hstood'⟩ := stood_of_launch hb
    obtain rfl := hstood.drawn k columns n rfl
    obtain rfl := hstood'.drawn k' columns' n rfl
    exact ho.drawnOnce a b k k' columns columns' n hp₀ hp₁
  entered other k n old was hp' := by
    obtain ⟨hne, p₀, hp₀, hstood⟩ := stood_of_launch hp'
    obtain ⟨was₀, rfl⟩ := hstood.entered k n old was rfl
    obtain ⟨ha, hnone⟩ := ho.entered other k n old was₀ hp₀
    refine ⟨ha, evaluation?_launch_of_ne (t := t.leave task) _ _ _ hnone ?_⟩
    rintro rfl
    exact hne (ho.enteredOnce other task k key n old previous was₀ told hp₀ hp)
  enteredOnce a b k k' n old old' was was' ha hb := by
    obtain ⟨-, p₀, hp₀, hstood⟩ := stood_of_launch ha
    obtain ⟨-, p₁, hp₁, hstood'⟩ := stood_of_launch hb
    obtain ⟨was₀, rfl⟩ := hstood.entered k n old was rfl
    obtain ⟨was₁, rfl⟩ := hstood'.entered k' n old' was' rfl
    exact ho.enteredOnce a b k k' n old old' was₀ was₁ hp₀ hp₁
  asked n e' he' := by
    obtain ⟨hasked, hgone⟩ := ho.entered task key g previous told hp
    by_cases hng : n = g
    · subst hng
      obtain ⟨e, he, hkey, -⟩ := evaluation?_launch_self (u := u) (t := t.leave task)
        key previous told hgone
      obtain rfl := Option.some.inj (he'.symm.trans he)
      rw [hkey]
      exact hasked
    · cases he : t.state.evaluation? n with
      | none => cases he'.symm.trans (evaluation?_launch_of_ne (t := t.leave task) _ _ _ he hng)
      | some e =>
        obtain ⟨f, hf, hkey, -⟩ := evaluation?_launch_of_some (u := u) (t := t.leave task)
          (g := g) key previous told he
        obtain rfl := Option.some.inj (he'.symm.trans hf)
        rw [hkey]
        exact ho.asked n e he
  spreading n p hp' := by
    obtain ⟨-, p₀, hp₀, hstood⟩ := stood_of_launch hp'
    obtain ⟨e, keys, he, hstage, hkeys⟩ := ho.spreading n p₀ hp₀
    obtain ⟨e', he', hkey, hstage', -⟩ := evaluation?_launch_of_some (u := u) (t := t.leave task)
      (g := g) key previous told he
    exact ⟨e', keys, he', hstage'.trans hstage, fun next hn =>
      (hkeys next (hstood.next ▸ hn)).trans hkey.symm⟩
  reporting other p hp' hnext := by
    obtain ⟨-, p₀, hp₀, hstood⟩ := stood_of_launch hp'
    exact ho.reporting other p₀ hp₀ (hstood.next ▸ hnext)

end Orderly

/-- Every turn keeps the order. -/
theorem Effect.orderly (ho : t.Orderly h) (heffect : Effect u t x t') :
    t'.Orderly (h ++ x.toList) := by
  cases heffect with
  | @strides e x s' hknown hfree hstride =>
    refine ho.keep (.evaluation e.generation) hstride.nextGeneration
      (fun y hy => Happening.asks_of_quiet (hstride.quiet y hy)) (fun _ _ => rfl)
      (fun g hg => hstride.others (by simpa using hg)) ?_ ?_
    · rintro g e' ⟨⟩ he'
      rcases hstride.own hknown with hgone | ⟨stage, hown⟩
      · cases he'.symm.trans hgone
      · obtain rfl := Option.some.inj (he'.symm.trans hown)
        exact ⟨e, hknown, rfl⟩
    · intro p hp
      cases hfree.symm.trans hp
  | @spreads e key keys hknown _ hstage _ =>
    refine ho.stand rfl (by simp)
      (fun g hg => State.evaluation?_setStage_of_ne (by simpa using hg) _) rfl
      (fun hnext => absurd rfl hnext) ?_
    rintro g ⟨⟩
    exact ⟨e, _, keys, hknown, State.evaluation?_setStage hknown, rfl, rfl,
      fun _ hnext => by cases hnext⟩
  | @admits e report rows fanOut hknown _ hstage _ =>
    refine ho.stand rfl (by simp)
      (fun g hg => State.evaluation?_setStage_of_ne (by simpa using hg) _) rfl
      (fun _ => ⟨_, rfl⟩) ?_
    rintro g ⟨⟩
    exact ⟨e, _, [], hknown, State.evaluation?_setStage hknown, rfl, rfl,
      fun _ hnext => by cases hnext; rfl⟩
  | @opens c s p _ _ hfirst =>
    obtain ⟨hevaluations, hgenerations, -⟩ := hfirst.kept
    obtain ⟨hnumbered, hnone⟩ := hfirst.position
    refine ho.stand hgenerations (fun y hy => ?_)
      (fun g _ => State.evaluation?_congr hevaluations g) hnumbered
      (fun hnext => absurd hnone hnext) (by simp)
    cases p with
    | handed => cases hy; rfl
    | asks | drawn | entered | admitted | claimed | recorded | looks => cases hy
  | draws hp => simpa using ho.draw hp
  | enters hp => exact ho.enter hp
  | launches hp => simpa using ho.launch hp
  | @claims e report next ledger hknown hp =>
    obtain ⟨e', keys, he', hstage, hkey⟩ := ho.spreading e.generation _ hp
    refine ho.stand rfl (by simp) (fun _ _ => rfl) rfl (fun _ => ⟨_, rfl⟩) ?_
    rintro g ⟨⟩
    exact ⟨e', e', keys, he', he', rfl, hstage, hkey⟩
  | @outdone e report next hknown hp =>
    refine ho.leave (State.alike_leaveOut u t.state e).nextGeneration (fun y hy => by cases hy; rfl)
      (fun g hg => State.evaluation?_leaveOut_of_ne (by simpa using hg)) ?_
    rintro g e' ⟨⟩ he'
    obtain rfl := Option.some.inj (he'.symm.trans (State.evaluation?_leaveOut_self hknown))
    exact ⟨e, hknown, rfl⟩
  | hands hp | records hp =>
    refine ho.stand rfl (fun y hy => by cases hy <;> rfl) (fun _ _ => rfl) rfl
      (fun hnext => absurd rfl hnext) ?_
    rintro g rfl
    obtain ⟨e, keys, he, hstage, -⟩ := ho.spreading g _ hp
    exact ⟨e, e, keys, he, he, rfl, hstage, fun _ hnext => by cases hnext⟩
  | concludes hp => exact ho.leave rfl (by simp) (fun _ _ => rfl) fun _ f _ hf => ⟨f, hf, rfl⟩
  | @follows task next hp =>
    have hfollows := t.state.follows u next task
    refine ho.leave hfollows.nextGeneration (by simp) (fun g hg => hfollows.others hg) ?_
    intro g e' _ he'
    obtain ⟨e, he, hkey, -⟩ := hfollows.back he'
    exact ⟨e, he, hkey⟩
  | looks =>
    exact ho.leave rfl (fun y hy => by cases hy; rfl) (fun _ _ => rfl) fun _ f _ hf => ⟨f, hf, rfl⟩
  | calls hknown _ hwhole hseen hadvance =>
    obtain ⟨hevaluations, hgeneration, -⟩ := hadvance.kept hknown hwhole
    refine ho.congr hgeneration (fun y hy => ?_) (fun _ => rfl)
      (fun g => State.evaluation?_congr hevaluations g)
    rcases hseen with rfl | rfl
    · cases hy
    · exact Happening.asks_of_quiet (Call.quiet_of_seen hgeneration hy)
  | outside houter hm =>
    obtain ⟨hevaluations, hgeneration, -⟩ := Move.kept_of_outer houter hm
    exact ho.congr hgeneration
      (fun y hy => Happening.asks_of_quiet (Move.quiet_of_outer houter y hy)) (fun _ => rfl)
      (fun g => State.evaluation?_congr hevaluations g)
  | tellsAll => exact ho.congr rfl (fun y hy => by cases hy; rfl) (fun _ => rfl) (fun _ => rfl)
  | bars | forgets | announces => exact ho.congr rfl (by simp) (fun _ => rfl) (fun _ => rfl)

/-- Every run is in order. -/
theorem Run.orderly (run : Run u t h t') (ho : t.Orderly []) : t'.Orderly h := by
  induction run with
  | rest => exact ho
  | turn turn _ hturn ih => exact (effect_of_turn? hturn).orderly ih

end Threads

end CellRules.Watch
