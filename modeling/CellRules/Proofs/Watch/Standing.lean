/-
CellRules.Proofs.Watch.Standing — the ledger fits the evaluations that are under way.

The ledger keeps one entry for a cell and COUNTS the older evaluations of it; the evaluations
themselves stand in a list of their own, each with its stage. That both tell the same story is what
everything else rests on: an entry that went too early, or a count that is off by one, would lose
the record of what was delivered.

* `Standing` — what the ledger must know of an evaluation: its generation, whether it was told to
  stop, whether it has begun.
* `Fits l entry` — the entry of a cell fits the standings `l` of its evaluations.
* `State.Orderly` — generations grow, and every entry fits. Every effect keeps it
  (`Effect.orderly`).
-/
import CellRules.Proofs.Watch.Effect
import CellRules.Proofs.Watch.Ledger

namespace CellRules.Watch

/-- The evaluation found its cell at rest. -/
def Stage.begun : Stage → Bool
  | .asked | .armed _ => false
  | _ => true

/-- What the ledger must know of an evaluation. -/
structure Standing where
  generation : Nat
  cancelled : Bool
  begun : Bool
  deriving DecidableEq

def Evaluation.standing (e : Evaluation) : Standing := ⟨e.generation, e.cancelled, e.stage.begun⟩

/-- The standings of the evaluations of a cell, the oldest first. -/
def State.standingsOf (s : State) (key : CellKey) : List Standing :=
  (s.evaluations.filter (·.key == key)).map Evaluation.standing

/-- The number of evaluations that have begun and are not the newest. -/
def older (current : Option Request) (l : List Standing) : Nat :=
  l.countP fun x => x.begun && !current.any (·.generation == x.generation)

/-- The entry of a cell fits the evaluations of it. -/
structure Fits (l : List Standing) (entry : Option CellState) : Prop where
  current : ∀ c r, entry = some c → c.current = some r →
    ⟨r.generation, false, r.phase == .running⟩ ∈ l
  superseded : ∀ c, entry = some c → c.superseded = older c.current l
  busy : ∀ c, entry = some c → c.current ≠ none ∨ c.superseded ≠ 0
  waiting : ∀ x ∈ l, x.cancelled = false → x.begun = false →
    ∃ c r, entry = some c ∧ c.current = some r ∧ r.generation = x.generation
  known : ∀ x ∈ l, x.begun = true → ∃ c, entry = some c

/-- Generations grow, no evaluation asks for its own cell, and the ledger fits the evaluations. -/
structure State.Orderly (s : State) : Prop where
  ascending : s.evaluations.Pairwise (·.generation < ·.generation)
  below : ∀ e ∈ s.evaluations, e.generation < s.nextGeneration
  others : ∀ e ∈ s.evaluations, ∀ keys, e.stage = .spreading keys → e.key ∉ keys
  fits : ∀ key, Fits (s.standingsOf key) (s.ledger.find? key)

variable {u : Setup} {s s' : State} {e f : Evaluation} {key other : CellKey}

/-! ## Standings -/

namespace State

theorem mem_standingsOf {x : Standing} :
    x ∈ s.standingsOf key ↔ ∃ e ∈ s.evaluations, e.key = key ∧ e.standing = x := by
  simp [standingsOf, and_assoc]

theorem standing_mem (he : e ∈ s.evaluations) : e.standing ∈ s.standingsOf e.key :=
  mem_standingsOf.mpr ⟨e, he, rfl, rfl⟩

namespace Orderly

variable (ho : s.Orderly)

include ho

/-- No two evaluations have one generation. -/
theorem eq_of_generation (he : e ∈ s.evaluations) (hf : f ∈ s.evaluations)
    (h : f.generation = e.generation) : f = e := by
  have hnodup : (s.evaluations.map (·.generation)).Nodup := by
    rw [List.Nodup, List.pairwise_map]
    exact ho.ascending.imp fun hlt => Nat.ne_of_lt hlt
  exact List.inj_on_of_nodup_map hnodup hf he h

theorem pairwise_standingsOf (key : CellKey) :
    (s.standingsOf key).Pairwise (·.generation < ·.generation) := by
  rw [standingsOf, List.pairwise_map]
  exact ho.ascending.filter _

theorem evaluations_setStage (he : e ∈ s.evaluations) (stage : Stage) :
    (s.setStage e stage).evaluations =
      s.evaluations.map fun f => if f.generation = e.generation then { f with stage } else f := by
  refine List.map_congr_left fun f hf => ?_
  split
  · rename_i h
    rw [ho.eq_of_generation he hf h]
  · rfl

/-- Setting a stage changes the standing of that evaluation. -/
theorem standingsOf_setStage (he : e ∈ s.evaluations) (stage : Stage) (key : CellKey) :
    (s.setStage e stage).standingsOf key = (s.standingsOf key).map fun x =>
      if x.generation = e.generation then { x with begun := stage.begun } else x := by
  rw [standingsOf, ho.evaluations_setStage he, List.filter_map, List.map_map, standingsOf,
    List.map_map]
  have hkey : (fun f : Evaluation => f.key == key) ∘
      (fun f => if f.generation = e.generation then { f with stage } else f)
        = fun f => f.key == key := by
    funext f
    by_cases hf : f.generation = e.generation <;> simp [hf]
  rw [hkey]
  refine List.map_congr_left fun f _ => ?_
  by_cases hf : f.generation = e.generation <;> simp [hf, Evaluation.standing]

/-- A stage that has begun as much as the one before changes no standing. -/
theorem standingsOf_setStage_same (he : e ∈ s.evaluations) {stage : Stage}
    (hbegun : stage.begun = e.stage.begun) (key : CellKey) :
    (s.setStage e stage).standingsOf key = s.standingsOf key := by
  rw [ho.standingsOf_setStage he]
  refine (List.map_congr_left fun x hx => ?_).trans (List.map_id _)
  obtain ⟨f, hf, -, rfl⟩ := mem_standingsOf.mp hx
  split
  · rename_i h
    rw [ho.eq_of_generation he hf h, hbegun]
    rfl
  · rfl

end Orderly

theorem standingsOf_dropEvaluation (key : CellKey) :
    (s.dropEvaluation e).standingsOf key
      = (s.standingsOf key).filter (·.generation != e.generation) := by
  rw [standingsOf, dropEvaluation, standingsOf, List.filter_map, List.filter_filter,
    List.filter_filter]
  congr 1
  refine List.filter_congr fun f _ => ?_
  simp [Evaluation.standing, Bool.and_comm]

/-- Evaluations of one cell are not those of another. -/
theorem Orderly.ne_of_mem_standingsOf (ho : s.Orderly) (he : e ∈ s.evaluations)
    (hne : key ≠ e.key) {x : Standing} (hx : x ∈ s.standingsOf key) :
    x.generation ≠ e.generation := by
  obtain ⟨f, hf, rfl, rfl⟩ := mem_standingsOf.mp hx
  intro h
  rw [ho.eq_of_generation he hf h] at hne
  exact hne rfl

end State

/-! ## Entries -/

namespace Fits

variable {l : List Standing} {c : CellState} {r : Request} {x : Standing}
  {g : Nat} {fanOut : List String} {phase : Phase}

/-- Ascending generations tell standings apart. -/
theorem nodup_generations (hl : l.Pairwise (·.generation < ·.generation)) :
    (l.map (·.generation)).Nodup := by
  rw [List.Nodup, List.pairwise_map]
  exact hl.imp fun hlt => Nat.ne_of_lt hlt

/-- A cell without an entry has no evaluations but those that were told to stop before they began. -/
theorem gone (hf : Fits l none) (hx : x ∈ l) : x.cancelled = true ∧ x.begun = false := by
  have hbegun : x.begun = false := by
    by_contra hbegun
    obtain ⟨c, hc⟩ := hf.known x hx (by simpa using hbegun)
    cases hc
  refine ⟨?_, hbegun⟩
  by_contra hwanted
  obtain ⟨c, r, hc, -⟩ := hf.waiting x hx (by simpa using hwanted) hbegun
  cases hc

theorem eq_of_generation (hl : l.Pairwise (·.generation < ·.generation)) {y : Standing}
    (hx : x ∈ l) (hy : y ∈ l) (h : x.generation = y.generation) : x = y :=
  List.inj_on_of_nodup_map (nodup_generations hl) hx hy h

/-- Taking one standing out of the count. -/
theorem older_eq_add (hl : l.Pairwise (·.generation < ·.generation)) (hx : x ∈ l)
    (current : Option Request) :
    older current l = older current (l.filter (·.generation != x.generation)) +
      if x.begun && !current.any (·.generation == x.generation) then 1 else 0 := by
  rw [older, older, (perm_cons_filter (nodup_generations hl) hx).countP_eq, List.countP_cons]

/-- The newest evaluation has a standing, and it is the only one of its generation. -/
theorem begun_of_current (hf : Fits l (some c)) (hl : l.Pairwise (·.generation < ·.generation))
    (hr : c.current = some r) (hx : x ∈ l) (hg : x.generation = r.generation) :
    x.cancelled = false ∧ x.begun = (r.phase == .running) := by
  rw [eq_of_generation hl hx (hf.current c r rfl hr) hg]
  exact ⟨rfl, rfl⟩

theorem deliver (hf : Fits l (some c)) (d : Nat) : Fits l (some { c with delivered := some d }) where
  current _ r hc hr := by cases hc; exact hf.current c r rfl hr
  superseded _ hc := by cases hc; exact hf.superseded c rfl
  busy _ hc := by cases hc; exact hf.busy c rfl
  waiting x hx hc hb := by
    obtain ⟨_, r, hc', hr⟩ := hf.waiting x hx hc hb
    cases hc'
    exact ⟨_, r, rfl, hr⟩
  known _ _ _ := ⟨_, rfl⟩

theorem begin (hf : Fits l (some c)) (hr : c.current = some ⟨g, phase, fanOut⟩) :
    Fits (l.map fun x => if x.generation = g then { x with begun := true } else x)
      (some { c with current := some ⟨g, .running, []⟩ }) where
  current _ r' hc hr' := by
    cases hc
    cases hr'
    exact List.mem_map.mpr ⟨_, hf.current c _ rfl hr, by simp⟩
  superseded _ hc := by
    cases hc
    rw [hf.superseded c rfl, hr, older, older, List.countP_map]
    refine List.countP_congr fun x _ => ?_
    by_cases h : x.generation = g
    · simp [h]
    · simp [h]
  busy _ hc := by cases hc; simp
  waiting x hx hc hb := by
    obtain ⟨y, hy, rfl⟩ := List.mem_map.mp hx
    by_cases h : y.generation = g
    · simp [h] at hb
    · simp only [h, if_false] at hc hb ⊢
      obtain ⟨_, r', hc', hr', hg⟩ := hf.waiting y hy hc hb
      cases hc'
      rw [hr] at hr'
      cases hr'
      exact absurd hg.symm h
  known _ _ _ := ⟨_, rfl⟩

/-- An evaluation that has not begun and is not the newest leaves no trace. -/
theorem discard {entry : Option CellState} (hf : Fits l entry)
    (hl : l.Pairwise (·.generation < ·.generation)) (hx : x ∈ l) (hb : x.begun = false)
    (hne : ∀ c r, entry = some c → c.current = some r → r.generation ≠ x.generation) :
    Fits (l.filter (·.generation != x.generation)) entry where
  current c r hc hr := by
    have h := hne c r hc hr
    exact List.mem_filter.mpr ⟨hf.current c r hc hr, by simpa using h⟩
  superseded c hc := by
    rw [hf.superseded c hc, older_eq_add hl hx, hb]
    simp
  busy := hf.busy
  waiting y hy := hf.waiting y (List.mem_filter.mp hy).1
  known y hy := hf.known y (List.mem_filter.mp hy).1

/-- An evaluation that has begun finishes. -/
theorem finish (hf : Fits l (some c)) (hl : l.Pairwise (·.generation < ·.generation))
    (hx : x ∈ l) (hb : x.begun = true) :
    Fits (l.filter (·.generation != x.generation)) (Ledger.leftAfter c x.generation) := by
  have hcount := older_eq_add hl hx c.current
  -- the count of the entry is right for those that stay
  have hsuperseded : (c.finish x.generation).superseded
      = older (c.finish x.generation).current (l.filter (·.generation != x.generation)) := by
    unfold CellState.finish
    split
    · rename_i hcur
      simp only [hcur, hb, Bool.not_true, Bool.and_false, Bool.false_eq_true, if_false,
        Nat.add_zero] at hcount
      rw [hf.superseded c rfl, hcount, older, older]
      refine List.countP_congr fun y hy => ?_
      have hne : y.generation ≠ x.generation := by simpa using (List.mem_filter.mp hy).2
      cases hr : c.current with
      | none => simp
      | some r =>
        have hg : r.generation = x.generation := by simpa [hr] using hcur
        simp [hg, Ne.symm hne]
    · rename_i hcur
      rw [Bool.not_eq_true] at hcur
      simp only [hcur, hb, Bool.not_false, Bool.and_self, if_true] at hcount
      rw [hf.superseded c rfl, hcount, Nat.add_sub_cancel]
  have hcurrent : ∀ r, (c.finish x.generation).current = some r →
      c.current = some r ∧ r.generation ≠ x.generation := by
    intro r hr
    unfold CellState.finish at hr
    split at hr
    · cases hr
    · rename_i hcur
      rw [hr] at hcur
      exact ⟨hr, by simpa using hcur⟩
  have hwaiting : ∀ y ∈ l.filter (·.generation != x.generation), y.cancelled = false →
      y.begun = false → ∃ r, (c.finish x.generation).current = some r ∧
        r.generation = y.generation := by
    intro y hy hyc hyb
    obtain ⟨hy, hne⟩ := List.mem_filter.mp hy
    obtain ⟨_, r, hc', hr, hg⟩ := hf.waiting y hy hyc hyb
    cases hc'
    have hcur : ¬(c.current.any (·.generation == x.generation)) = true := by
      simpa [hr, hg] using hne
    exact ⟨r, by rw [CellState.finish, if_neg hcur, hr], hg⟩
  cases hleft : Ledger.leftAfter c x.generation with
  | none =>
    obtain ⟨hnone, hzero⟩ := Ledger.leftAfter_eq_none.mp hleft
    refine ⟨fun _ _ hc _ => ?_, fun _ hc => ?_, fun _ hc => ?_, ?_, ?_⟩
    · cases hc
    · cases hc
    · cases hc
    · intro y hy hyc hyb
      obtain ⟨r, hr, -⟩ := hwaiting y hy hyc hyb
      rw [hnone] at hr
      cases hr
    · intro y hy hyb
      rw [hzero, hnone] at hsuperseded
      have hpos : 0 < older none (l.filter (·.generation != x.generation)) :=
        List.countP_pos_iff.mpr ⟨y, hy, by simp [hyb]⟩
      omega
  | some c' =>
    obtain ⟨rfl, hbusy⟩ := Ledger.leftAfter_eq_some hleft
    refine ⟨?_, ?_, ?_, ?_, fun _ _ _ => ⟨_, rfl⟩⟩
    · intro _ r hc' hr
      cases hc'
      obtain ⟨hr, hne⟩ := hcurrent r hr
      exact List.mem_filter.mpr ⟨hf.current c r rfl hr, by simpa using hne⟩
    · intro _ hc'
      cases hc'
      exact hsuperseded
    · intro _ hc'
      cases hc'
      exact hbusy
    · intro y hy hyc hyb
      obtain ⟨r, hr, hg⟩ := hwaiting y hy hyc hyb
      exact ⟨_, r, rfl, hr, hg⟩

/-- The count of the new entry: all that have begun are older now. -/
theorem superseded_request {entry : Option CellState} (hf : Fits l entry)
    (hl : l.Pairwise (·.generation < ·.generation)) :
    ((entry.getD {}).request g fanOut).superseded = l.countP (·.begun) := by
  cases entry with
  | none =>
    have hzero : l.countP (·.begun) = 0 := by
      rw [List.countP_eq_zero]
      intro x hx hb
      obtain ⟨c, hc⟩ := hf.known x hx hb
      cases hc
    rw [hzero]
    rfl
  | some c =>
    have hc := hf.superseded c rfl
    rw [Option.getD_some, CellState.request]
    cases hr : c.current with
    | none => simpa [hr, older] using hc
    | some r =>
      have hmem := hf.current c r rfl hr
      have hcount := older_eq_add hl hmem c.current
      have hall := older_eq_add hl hmem none
      simp only [hr, Option.any_some, beq_self_eq_true, Bool.not_true, Bool.and_false,
        Bool.false_eq_true, if_false, Nat.add_zero] at hcount
      have hrest : older (some r) (l.filter (·.generation != r.generation))
          = older none (l.filter (·.generation != r.generation)) := by
        refine List.countP_congr fun y hy => ?_
        have hne : y.generation ≠ r.generation := by simpa using (List.mem_filter.mp hy).2
        simp [Ne.symm hne]
      have hbegun : older none l = l.countP (·.begun) := by simp [older]
      rw [hr, hcount, hrest] at hc
      rw [← hbegun, hall]
      cases hphase : r.phase with
      | pending => simpa [hphase] using hc
      | running => simp [hphase, hc]

theorem current_request (entry : CellState) (g : Nat) (fanOut : List String) :
    ∃ r, (entry.request g fanOut).current = some r ∧ r.generation = g ∧ r.phase = .pending := by
  unfold CellState.request
  dsimp only
  split
  · exact ⟨_, rfl, rfl, rfl⟩
  · split <;> exact ⟨_, rfl, rfl, rfl⟩

/-- Another evaluation is asked for. -/
theorem ask {entry : Option CellState} (hf : Fits l entry)
    (hl : l.Pairwise (·.generation < ·.generation)) (hbelow : ∀ x ∈ l, x.generation < g)
    (gives : Bool) :
    Fits ((l.map fun x =>
        if (entry.bind (·.current)).any fun r =>
          r.generation == x.generation && (r.phase == .pending || gives)
        then { x with cancelled := true } else x) ++ [⟨g, false, false⟩])
      (some ((entry.getD {}).request g fanOut)) := by
  obtain ⟨r, hr, hg, hphase⟩ := current_request (entry.getD {}) g fanOut
  refine ⟨?_, ?_, ?_, ?_, fun _ _ _ => ⟨_, rfl⟩⟩
  · intro _ r' hc' hr'
    cases hc'
    rw [hr] at hr'
    cases hr'
    simp [hg, hphase]
  · intro _ hc'
    cases hc'
    rw [superseded_request hf hl, hr, older, List.countP_append, List.countP_map]
    simp only [List.countP_singleton, Bool.false_and, Bool.false_eq_true, if_false, Nat.add_zero]
    refine List.countP_congr fun x hx => ?_
    have hne : r.generation ≠ x.generation := by
      have hlt := hbelow x hx
      omega
    simp only [Function.comp]
    split <;> simp [hne]
  · intro _ hc'
    cases hc'
    exact .inl (by simp [hr])
  · intro x hx hxc hxb
    rcases List.mem_append.mp hx with hx | hx
    · obtain ⟨y, hy, rfl⟩ := List.mem_map.mp hx
      split at hxc
      · cases hxc
      · rename_i hstops
        rw [if_neg hstops] at hxb
        -- one that waits is the newest, and pending: it was told to stop
        obtain ⟨c, r₀, rfl, hr₀, hg₀⟩ := hf.waiting y hy hxc hxb
        obtain ⟨-, hb₀⟩ := begun_of_current hf hl hr₀ hy hg₀.symm
        have hpending : r₀.phase = .pending := by
          cases hp : r₀.phase with
          | pending => rfl
          | running => rw [hp, hxb] at hb₀; cases hb₀
        exact absurd (by simp [hr₀, hg₀, hpending]) hstops
    · rw [List.mem_singleton] at hx
      subst hx
      exact ⟨_, r, rfl, hr, hg⟩

end Fits

/-! ## Every effect keeps the order -/

namespace State

theorem orderly_start (u : Setup) (grid : Grid) : (start u grid).Orderly where
  ascending := .nil
  below _ he := by cases he
  others _ he := by cases he
  fits _ := ⟨nofun, nofun, nofun, nofun, nofun⟩

/-- Only generations, evaluations and the ledger matter. -/
theorem Orderly.congr (ho : s.Orderly) (hevaluations : s'.evaluations = s.evaluations)
    (hnext : s'.nextGeneration = s.nextGeneration) (hledger : s'.ledger = s.ledger) :
    s'.Orderly where
  ascending := by rw [hevaluations]; exact ho.ascending
  below := by rw [hevaluations, hnext]; exact ho.below
  others := by rw [hevaluations]; exact ho.others
  fits key := by
    rw [standingsOf, hevaluations, hledger]
    exact ho.fits key

namespace Orderly

variable (ho : s.Orderly) (he : e ∈ s.evaluations)

include ho

theorem alike (h : s'.Alike s) : s'.Orderly := ho.congr h.evaluations h.nextGeneration h.ledger

include he

theorem gone_of_none (hnone : s.ledger.find? e.key = none) :
    e.cancelled = true ∧ e.stage.begun = false :=
  (hnone ▸ ho.fits e.key : Fits _ none).gone (standing_mem he)

theorem pairwise_setStage (stage : Stage) :
    (s.setStage e stage).evaluations.Pairwise (·.generation < ·.generation) := by
  rw [ho.evaluations_setStage he, List.pairwise_map]
  refine ho.ascending.imp fun hlt => ?_
  split <;> split <;> exact hlt

theorem below_setStage (stage : Stage) :
    ∀ f ∈ (s.setStage e stage).evaluations, f.generation < s.nextGeneration := by
  rintro f hf
  rcases mem_setStage.mp hf with ⟨hf, -⟩ | ⟨rfl, -⟩
  · exact ho.below f hf
  · exact ho.below e he

omit he in
theorem others_setStage {stage : Stage}
    (hothers : ∀ keys, stage = .spreading keys → e.key ∉ keys) :
    ∀ f ∈ (s.setStage e stage).evaluations, ∀ keys, f.stage = .spreading keys → f.key ∉ keys := by
  rintro f hf
  rcases mem_setStage.mp hf with ⟨hf, -⟩ | ⟨rfl, -⟩
  · exact ho.others f hf
  · exact hothers

/-- An evaluation that has begun as much as before is in the same place. -/
theorem setStage {stage : Stage} (hbegun : stage.begun = e.stage.begun)
    (hothers : ∀ keys, stage = .spreading keys → e.key ∉ keys) : (s.setStage e stage).Orderly where
  ascending := ho.pairwise_setStage he stage
  below := ho.below_setStage he stage
  others := ho.others_setStage hothers
  fits key := by
    rw [ho.standingsOf_setStage_same he hbegun]
    exact ho.fits key

theorem begin {fanOut : List String} {ledger : Ledger}
    (hb : s.ledger.begin? e.key e.generation = some (fanOut, ledger)) :
    ({ s with ledger }.setStage e (.entering fanOut)).Orderly where
  ascending := ho.pairwise_setStage he _
  below := ho.below_setStage he _
  others := ho.others_setStage nofun
  fits key := by
    obtain ⟨c, phase, hc, hr, rfl⟩ := Ledger.begin?_eq_some.mp hb
    have hstandings := ho.standingsOf_setStage he (.entering fanOut) key
    change Fits ((s.setStage e (.entering fanOut)).standingsOf key) _
    rw [hstandings]
    by_cases hkey : key = e.key
    · subst hkey
      have hf := ho.fits e.key
      rw [hc] at hf
      change Fits _ ((s.ledger.set e.key _).find? e.key)
      rw [Ledger.find?_set_self]
      exact hf.begin hr
    · change Fits _ ((s.ledger.set e.key _).find? key)
      rw [Ledger.find?_set_of_ne hkey]
      convert ho.fits key using 1
      refine (List.map_congr_left fun x hx => ?_).trans (List.map_id _)
      rw [if_neg (ho.ne_of_mem_standingsOf he hkey hx)]
      rfl

omit he in
theorem report {ledger : Ledger} (hclaim : s.ledger.claim? e.key e.generation = some ledger) :
    ({ s with ledger } : State).Orderly where
  ascending := ho.ascending
  below := ho.below
  others := ho.others
  fits key := by
    obtain ⟨c, hc, -, rfl⟩ := Ledger.claim?_eq_some.mp hclaim
    change Fits (s.standingsOf key) _
    by_cases hkey : key = e.key
    · subst hkey
      have hf := ho.fits e.key
      rw [hc] at hf
      change Fits _ ((s.ledger.set e.key _).find? e.key)
      rw [Ledger.find?_set_self]
      exact hf.deliver _
    · change Fits _ ((s.ledger.set e.key _).find? key)
      rw [Ledger.find?_set_of_ne hkey]
      exact ho.fits key

theorem discard (hbegun : e.stage.begun = false)
    (hwhy : e.cancelled = true ∨ s.ledger.begin? e.key e.generation = none) :
    (s.dropEvaluation e).Orderly where
  ascending := ho.ascending.filter _
  below f hf := ho.below f (List.mem_filter.mp hf).1
  others f hf := ho.others f (List.mem_filter.mp hf).1
  fits key := by
    rw [standingsOf_dropEvaluation]
    by_cases hkey : key = e.key
    · subst hkey
      refine (ho.fits e.key).discard (ho.pairwise_standingsOf _) (standing_mem he) hbegun ?_
      intro c r hc hr hg
      rcases hwhy with hcancelled | hnone
      · have hf := ho.fits e.key
        rw [hc] at hf
        have hnot := (hf.begun_of_current (ho.pairwise_standingsOf _) hr (standing_mem he) hg.symm).1
        exact absurd (hcancelled.symm.trans hnot) (by simp)
      · exact Ledger.begin?_eq_none hnone r (by rw [Ledger.current?_of_find? hc, hr]) hg
    · rw [List.filter_eq_self.mpr fun x hx => by
        simpa using ho.ne_of_mem_standingsOf he hkey hx]
      exact ho.fits key

theorem finish (hbegun : e.stage.begun = true) :
    ({ s.dropEvaluation e with ledger := s.ledger.finish e.key e.generation } : State).Orderly where
  ascending := ho.ascending.filter _
  below f hf := ho.below f (List.mem_filter.mp hf).1
  others f hf := ho.others f (List.mem_filter.mp hf).1
  fits key := by
    change Fits ((s.dropEvaluation e).standingsOf key)
      ((s.ledger.finish e.key e.generation).find? key)
    rw [standingsOf_dropEvaluation]
    by_cases hkey : key = e.key
    · subst hkey
      have hf := ho.fits e.key
      obtain ⟨c, hc⟩ := hf.known _ (standing_mem he) hbegun
      rw [hc] at hf
      rw [Ledger.find?_finish_self hc]
      exact hf.finish (ho.pairwise_standingsOf _) (standing_mem he) hbegun
    · rw [Ledger.find?_finish_of_ne hkey, List.filter_eq_self.mpr fun x hx => by
        simpa using ho.ne_of_mem_standingsOf he hkey hx]
      exact ho.fits key

end Orderly

/-- Only the newest evaluation of a cell is told to stop. -/
theorem Orderly.not_stops (ho : s.Orderly) (hf : f ∈ s.evaluations) (hne : f.key ≠ key) :
    s.stops u key f.generation = false := by
  rw [stops]
  cases hr : s.ledger.current? key with
  | none => rfl
  | some r =>
    obtain ⟨c, hc, hcur⟩ := Ledger.current?_eq_some.mp hr
    obtain ⟨d, hd, hkey, heq⟩ := mem_standingsOf.mp ((ho.fits key).current c r hc hcur)
    have hg : d.generation = r.generation := congrArg Standing.generation heq
    have hfg : r.generation ≠ f.generation := by
      intro h
      rw [ho.eq_of_generation hd hf (h.symm.trans hg.symm)] at hne
      exact hne hkey
    simp [hfg]

theorem standingsOf_asking (ho : s.Orderly) (fanOut : List String) (other : CellKey) :
    (s.asking u key fanOut).standingsOf other =
      if other = key then
        ((s.standingsOf key).map fun x =>
          if s.stops u key x.generation then { x with cancelled := true } else x) ++
          [⟨s.nextGeneration, false, false⟩]
      else s.standingsOf other := by
  have hkeys : (fun f : Evaluation => f.key == other) ∘ s.superseded u key
      = fun f => f.key == other := by
    funext f
    rw [Function.comp, key_superseded]
  have hold : (s.evaluations.map (s.superseded u key)).filter (·.key == other)
      = (s.evaluations.filter (·.key == other)).map (s.superseded u key) := by
    rw [List.filter_map, hkeys]
  have hnew : (({ generation := s.nextGeneration, key } : Evaluation).key == other)
      = decide (other = key) := by
    by_cases h : other = key
    · simp [h]
    · simp [h, Ne.symm h]
  rw [standingsOf, asking, List.filter_append, hold, List.map_append, List.map_map]
  split
  · rename_i h
    subst h
    rw [List.filter_singleton, hnew, decide_eq_true rfl, cond_true, standingsOf, List.map_map]
    congr 1
    refine List.map_congr_left fun f _ => ?_
    by_cases hstops : s.stops u other f.generation = true
    · simp [superseded, Evaluation.standing, hstops]
    · simp [superseded, Evaluation.standing, hstops]
  · rename_i h
    rw [List.filter_singleton, hnew, decide_eq_false h, cond_false, List.map_nil,
      List.append_nil, standingsOf]
    refine List.map_congr_left fun f hf => ?_
    obtain ⟨hf, hkey⟩ := List.mem_filter.mp hf
    have hne : f.key ≠ key := by
      rw [beq_iff_eq.mp hkey]
      exact h
    simp [Function.comp, superseded, ho.not_stops hf hne]

theorem Orderly.asking (ho : s.Orderly) (fanOut : List String) :
    (s.asking u key fanOut).Orderly where
  ascending := by
    refine List.pairwise_append.mpr ⟨?_, List.pairwise_singleton _ _, ?_⟩
    · rw [List.pairwise_map]
      exact ho.ascending.imp fun hlt => by rwa [generation_superseded, generation_superseded]
    · intro _ hf d hd
      obtain ⟨f, hmem, rfl⟩ := List.mem_map.mp hf
      rw [List.mem_singleton] at hd
      subst hd
      rw [generation_superseded]
      exact ho.below f hmem
  below _ hf := by
    rcases List.mem_append.mp hf with hf | hf
    · obtain ⟨f, hmem, rfl⟩ := List.mem_map.mp hf
      rw [generation_superseded]
      exact Nat.lt_succ_of_lt (ho.below f hmem)
    · rw [List.mem_singleton] at hf
      subst hf
      exact Nat.lt_succ_self _
  others _ hf := by
    rcases List.mem_append.mp hf with hf | hf
    · obtain ⟨f, hmem, rfl⟩ := List.mem_map.mp hf
      rw [stage_superseded, key_superseded]
      exact ho.others f hmem
    · rw [List.mem_singleton] at hf
      subst hf
      exact nofun
  fits other := by
    rw [standingsOf_asking ho]
    change Fits _ ((s.ledger.request key s.nextGeneration fanOut).find? other)
    split
    · rename_i h
      subst h
      rw [Ledger.find?_request_self]
      refine (ho.fits other).ask (ho.pairwise_standingsOf _) ?_ u.ruleSet.throttle.cancelSuperseded
      intro x hx
      obtain ⟨f, hf, -, rfl⟩ := mem_standingsOf.mp hx
      exact ho.below f hf
    · rename_i h
      rw [Ledger.find?_request_of_ne h]
      exact ho.fits other

theorem Orderly.schedule (ho : s.Orderly) (hopen : s.closed = false) (key : CellKey)
    (fanOut : List String) : (s.schedule u key fanOut).Orderly :=
  (ho.asking fanOut).alike (schedule_alike hopen key fanOut)

/-- Whoever asks for a cell of another row stays as it is. -/
theorem Orderly.mem_schedule (ho : s.Orderly) (hopen : s.closed = false) (he : e ∈ s.evaluations)
    {keys : List CellKey} (hstage : e.stage = .spreading (key :: keys)) :
    e ∈ (s.schedule u key []).evaluations := by
  rw [(schedule_alike hopen key []).evaluations]
  refine List.mem_append_left _ (List.mem_map.mpr ⟨e, he, ?_⟩)
  have hne : e.key ≠ key := fun h => ho.others e he _ hstage (by simp [h])
  rw [superseded, ho.not_stops he hne]
  rfl

end State

/-- The peers of a cell are cells of other rows. -/
theorem State.not_mem_peers (key : CellKey) (edited : List String) (rows : Dataset) :
    key ∉ s.peers u key edited rows := by
  intro h
  obtain ⟨row, hrow, heq⟩ := List.mem_map.mp h
  have hne := (List.mem_filter.mp (List.mem_filter.mp hrow).1).2
  rw [← heq] at hne
  simp at hne

theorem Course.orderly {x : Option Happening} (ho : s.Orderly) (hopen : s.closed = false)
    (hknown : s.evaluation? e.generation = some e) (h : Course u s e x s') : s'.Orderly := by
  have he := State.mem_of_evaluation? hknown
  -- no other stage than `spreading` names cells to ask for
  cases h with
  | arm hstage hs => exact (ho.setStage he (by rw [hstage]; rfl) (by simp)).alike hs
  | discard hstage hwhy hs =>
    refine (ho.discard he ?_ hwhy).alike hs
    rcases hstage with h | ⟨due, h⟩ <;> (rw [h]; rfl)
  | begin hstage hc hb hs => exact (ho.begin he hb).alike hs
  | queue hstage hs => exact (ho.setStage he (by rw [hstage]; rfl) (by simp)).alike hs
  | read hstage hs =>
    refine (ho.setStage he ?_ (by simp)).alike hs
    rcases hstage with h | ⟨ticket, h⟩ <;> (rw [h]; rfl)
  | giveUp hstage hc hs =>
    refine (ho.finish he ?_).alike hs
    rcases hstage with h | ⟨ticket, h⟩ <;> (rw [h]; rfl)
  | work hstage hkept hs => exact (ho.setStage he (by rw [hstage]; rfl) (by simp)).alike hs
  | stop hstage hkept hs => exact (ho.setStage he (by rw [hstage]; rfl) (by simp)).alike hs
  | @report _ report rows fanOut ledger hstage hc hclaim hs =>
    have hreported : (({ s with ledger } : State).deliver u report).Orderly :=
      (ho.report hclaim).congr rfl rfl rfl
    refine (hreported.setStage he (by rw [hstage]; rfl) ?_).alike hs
    rintro keys h
    cases h
    exact State.not_mem_peers _ _ _
  | ignore hstage hwhy hs => exact (ho.setStage he (by rw [hstage]; rfl) (by simp)).alike hs
  | fail hstage hc hs => exact (ho.setStage he (by rw [hstage]; rfl) (by simp)).alike hs
  | @spread _ key keys hstage hs =>
    have hasked := ho.schedule (u := u) hopen key []
    have hmem := ho.mem_schedule (u := u) hopen he hstage
    refine (hasked.setStage hmem (by rw [hstage]; rfl) ?_).alike hs
    rintro keys' h
    cases h
    exact fun h => ho.others e he _ hstage (List.mem_cons_of_mem _ h)
  | finish hstage hs => exact (ho.finish he (by rw [hstage]; rfl)).alike hs

theorem Effect.orderly {x : Option Happening} (ho : s.Orderly) (hopen : s'.closed = false)
    (h : Effect u s x s') (hs : s.closed = false) : s'.Orderly := by
  cases h with
  | course hknown hc => exact hc.orderly ho hs hknown
  | @ask c edited job todo _ _ _ halike =>
    have hasked := ho.schedule (u := u) hs job.key [edited]
    have hmoved :
        (Call.goTo (s.schedule u job.key [edited]) c (.editing edited todo none)).Orderly :=
      hasked.congr rfl rfl rfl
    exact hmoved.alike halike
  | call _ hc => exact ho.congr hc.kept.1 hc.kept.2.1 hc.kept.2.2
  | outside hc => exact ho.congr hc.kept.1 hc.kept.2.1 hc.kept.2.2
  | close hclosed =>
    subst hclosed
    cases hopen

end CellRules.Watch
