/-
CellRules.Proofs.Watch.Pending — what is pending is what is under way.

Whoever asks which cells are pending is answered by the ledger alone. In an open watch the ledger
tells the truth: it has an entry for exactly the cells with a live evaluation, and the entry counts
them (`State.Accounted`). So the ledger is empty only if nothing is under way, and nothing is about
to come either: an evaluation asks for the cells of other rows before it leaves the ledger itself,
and who was asked for is entered at once.

* `Fits.countP_live` — an entry that fits the evaluations of its cell counts the live ones.
* `Effect.live_back` — nobody comes to life but who was just asked for.
* `Causes h g g'` — the evaluation `g` asked for `g'`.
* `pending_truthful` — what the ledger says of every state of a run, and what those who wait for
  rest learn of it.
-/
import CellRules.Proofs.Watch.Resting
import CellRules.Proofs.Watch.Spread
import Mathlib.Logic.Relation

namespace CellRules.Watch

variable {u : Setup} {grid : Grid} {s s' mid : State} {h h₁ h₂ : List Happening}
  {x : Option Happening} {key : CellKey} {g : Nat} {e f : Evaluation}

/-! ## Live evaluations are counted -/

/-- The live evaluations of a cell: armed, waiting for a slot, or judging it. -/
def State.liveOf (s : State) (key : CellKey) : List Evaluation :=
  s.evaluations.filter fun e => e.key = key ∧ e.live

/-- The evaluation has begun, or nobody told it to stop before it did. -/
def Standing.live (x : Standing) : Bool := !x.cancelled || x.begun

theorem Evaluation.live_standing : e.standing.live = true ↔ e.live := by
  simp [Standing.live, Evaluation.standing, Evaluation.live]

theorem State.countP_liveOf (s : State) (key : CellKey) (p : Standing → Bool) :
    (s.liveOf key).countP (fun e => p e.standing)
      = (s.standingsOf key).countP fun x => x.live && p x := by
  rw [liveOf, standingsOf, List.countP_map, List.countP_filter, List.countP_filter]
  refine List.countP_congr fun e _ => ?_
  simp only [Function.comp, Bool.and_eq_true, decide_eq_true_eq, beq_iff_eq,
    Evaluation.live_standing]
  tauto

namespace Fits

variable {l : List Standing} {entry : Option CellState} {c : CellState} {y : Standing}

/-- A cell without an entry has no live evaluation. -/
theorem not_live (hf : Fits l none) (hy : y ∈ l) : y.live = false := by
  simp [Standing.live, hf.gone hy]

/-- A live evaluation that is not the newest has begun. -/
theorem begun_of_live (hf : Fits l (some c)) (hy : y ∈ l) (hlive : y.live = true)
    (hne : ∀ r, c.current = some r → r.generation ≠ y.generation) : y.begun = true := by
  cases hbegun : y.begun with
  | true => rfl
  | false =>
    have hwanted : y.cancelled = false := by simpa [Standing.live, hbegun] using hlive
    obtain ⟨_, r, hc, hr, hg⟩ := hf.waiting y hy hwanted hbegun
    cases hc
    exact absurd hg (hne r hr)

/-- Where there is a newest evaluation, the other live ones have begun. -/
theorem begun_of_rest (hf : Fits l (some c)) {r : Request} (hcur : c.current = some r)
    (hy : y ∈ l.filter (·.generation != r.generation)) :
    r.generation ≠ y.generation ∧ (y.live = true → y.begun = true) := by
  obtain ⟨hy, hne⟩ := List.mem_filter.mp hy
  have hne' : r.generation ≠ y.generation := Ne.symm (bne_iff_ne.mp hne)
  refine ⟨hne', fun hlive => hf.begun_of_live hy hlive fun r' hr' => ?_⟩
  rw [hcur] at hr'
  cases hr'
  exact hne'

/-- An entry counts the live evaluations of its cell: the newest, and the older ones. -/
theorem countP_live (hf : Fits l entry) (hl : l.Pairwise (·.generation < ·.generation)) :
    l.countP Standing.live
      = entry.elim 0 fun c => (if c.current.isSome then 1 else 0) + c.superseded := by
  cases entry with
  | none => exact List.countP_eq_zero.mpr fun y hy => by simp [hf.not_live hy]
  | some c =>
    rw [Option.elim_some, hf.superseded c rfl]
    cases hcur : c.current with
    | none =>
      have hbegun : l.countP Standing.live = older none l := by
        refine List.countP_congr fun y hy => ⟨fun hlive => ?_, fun hb => ?_⟩
        · simpa using hf.begun_of_live hy hlive (by simp [hcur])
        · simp only [Option.any_none, Bool.not_false, Bool.and_true] at hb
          simp [Standing.live, hb]
      simp [hbegun]
    | some r =>
      have hmem := hf.current c r rfl hcur
      have hrest : (l.filter (·.generation != r.generation)).countP Standing.live
          = older (some r) (l.filter (·.generation != r.generation)) := by
        refine List.countP_congr fun y hy => ?_
        obtain ⟨hne, hbegun⟩ := hf.begun_of_rest hcur hy
        constructor
        · intro hlive
          simp [hbegun hlive, hne]
        · intro hb
          simp only [Bool.and_eq_true] at hb
          simp [Standing.live, hb.1]
      have hcount := older_eq_add hl hmem (some r)
      simp only [Option.any_some, beq_self_eq_true, Bool.not_true, Bool.and_false,
        Bool.false_eq_true, if_false, Nat.add_zero] at hcount
      rw [(perm_cons_filter (nodup_generations hl) hmem).countP_eq, List.countP_cons, hrest, hcount]
      simp [Standing.live, Nat.add_comm]

/-- At most the newest evaluation of a cell is live and has not begun. -/
theorem countP_armed (hf : Fits l entry) (hl : l.Pairwise (·.generation < ·.generation)) :
    (l.countP fun y => y.live && !y.begun) ≤ 1 := by
  have hzero : ∀ k : List Standing, (∀ y ∈ k, y.live = true → y.begun = true) →
      (k.countP fun y => y.live && !y.begun) = 0 := by
    intro k hk
    refine List.countP_eq_zero.mpr fun y hy harmed => ?_
    simp only [Bool.and_eq_true, Bool.not_eq_true'] at harmed
    rw [hk y hy harmed.1] at harmed
    cases harmed.2
  cases entry with
  | none =>
    rw [hzero l fun y hy hlive => by rw [hf.not_live hy] at hlive; cases hlive]
    exact Nat.zero_le 1
  | some c =>
    cases hcur : c.current with
    | none =>
      rw [hzero l fun y hy hlive => hf.begun_of_live hy hlive (by simp [hcur])]
      exact Nat.zero_le 1
    | some r =>
      rw [(perm_cons_filter (nodup_generations hl) (hf.current c r rfl hcur)).countP_eq,
        List.countP_cons, hzero _ fun y hy => (hf.begun_of_rest hcur hy).2]
      split <;> omega

/-- An evaluation that has begun is in the entry: as the newest one, or in the count of the older
ones. -/
theorem newest_or_older (hf : Fits l entry) (hy : y ∈ l) (hbegun : y.begun = true) :
    ∃ c, entry = some c ∧
      ((∃ r, c.current = some r ∧ r.generation = y.generation) ∨ 0 < c.superseded) := by
  obtain ⟨c, hc⟩ := hf.known y hy hbegun
  refine ⟨c, hc, ?_⟩
  by_cases hnewest : ∃ r, c.current = some r ∧ r.generation = y.generation
  · exact .inl hnewest
  · right
    rw [hf.superseded c hc]
    refine List.countP_pos_iff.mpr ⟨y, hy, ?_⟩
    cases hcur : c.current with
    | none => simp [hbegun]
    | some r =>
      have hne : r.generation ≠ y.generation := fun hg => hnewest ⟨r, hcur, hg⟩
      simp [hbegun, hne]

end Fits

/-- The ledger tells the truth about a cell: it has an entry exactly if an evaluation of the cell is
live, at most one of these is still armed, and the entry counts them. -/
structure State.Accounted (s : State) (key : CellKey) : Prop where
  pending : s.ledger.contains key = true ↔ ∃ e ∈ s.evaluations, e.key = key ∧ e.live
  armed : (s.liveOf key).countP (fun e => !e.stage.begun) ≤ 1
  count : (s.liveOf key).length = (s.ledger.find? key).elim 0 fun c =>
    (if c.current.isSome then 1 else 0) + c.superseded

namespace State.Orderly

theorem accounted (ho : s.Orderly) (key : CellKey) : s.Accounted key := by
  have hfits := ho.fits key
  have hcount : (s.liveOf key).length = (s.ledger.find? key).elim 0 fun c =>
      (if c.current.isSome then 1 else 0) + c.superseded := by
    rw [← hfits.countP_live (ho.pairwise_standingsOf key)]
    simpa using s.countP_liveOf key fun _ => true
  have hlive : (∃ e ∈ s.evaluations, e.key = key ∧ e.live) ↔ 0 < (s.liveOf key).length := by
    simp [List.length_pos_iff_exists_mem, State.liveOf]
  refine ⟨?_, ?_, hcount⟩
  · rw [hlive, hcount, Ledger.contains]
    cases hentry : s.ledger.find? key with
    | none => simp
    | some c =>
      have hbusy := hfits.busy c hentry
      cases hcur : c.current with
      | none =>
        have hpos : 0 < c.superseded := Nat.pos_of_ne_zero (hbusy.resolve_left (by simp [hcur]))
        simp [hcur, hpos]
      | some r => simp [hcur, Nat.add_comm 1]
  · rw [show (s.liveOf key).countP (fun e => !e.stage.begun)
        = (s.standingsOf key).countP (fun y => y.live && !y.begun) from
      s.countP_liveOf key fun y => !y.begun]
    exact hfits.countP_armed (ho.pairwise_standingsOf key)

/-- Nothing is pending exactly if no evaluation is live. -/
theorem size_eq_zero_iff (ho : s.Orderly) :
    s.ledger.size = 0 ↔ ∀ e ∈ s.evaluations, ¬e.live := by
  rw [Ledger.size_eq_zero]
  constructor
  · intro hnone e he hlive
    have hcontains := (ho.accounted e.key).pending.mpr ⟨e, he, rfl, hlive⟩
    rw [Ledger.contains, hnone] at hcontains
    cases hcontains
  · intro hdead key
    cases hentry : s.ledger.find? key with
    | none => rfl
    | some c =>
      obtain ⟨e, he, -, hlive⟩ := (ho.accounted key).pending.mp (by simp [Ledger.contains, hentry])
      exact absurd hlive (hdead e he)

end State.Orderly

/-! ## Nobody comes to life -/

/-- Who is told to stop before it began will not begin. -/
theorem Course.not_live_kept (he : ¬e.live) (h : Course u s e x s') (hf : f ∈ s'.evaluations)
    (hg : f.generation = e.generation) : ¬f.live := by
  obtain ⟨hcancelled, hbegun⟩ : e.cancelled = true ∧ e.stage.begun = false := by
    simpa [Evaluation.live] using he
  cases h with
  | @arm _ due hstage hs =>
    rw [State.eq_of_setStage hs.evaluations hf hg]
    simp [Evaluation.live, hcancelled, Stage.begun]
  | discard hstage hwhy hs => exact absurd hg (State.ne_of_dropEvaluation hs.evaluations hf)
  | begin hstage hwanted hb hs =>
    rw [hcancelled] at hwanted
    cases hwanted
  | read hstage | giveUp hstage =>
    rcases hstage with hstage | ⟨ticket, hstage⟩ <;> (rw [hstage] at hbegun; cases hbegun)
  | queue hstage | work hstage | stop hstage | report hstage | ignore hstage | fail hstage
  | spread hstage | finish hstage =>
    rw [hstage] at hbegun
    cases hbegun

/-- A live evaluation was live before the step, or was just asked for. -/
theorem Effect.live_back (ho : s.Orderly) (ho' : s'.Orderly) (hopen : s.closed = false)
    (hopen' : s'.closed = false) (heffect : Effect u s x s') (hf : f ∈ s'.evaluations)
    (hlive : f.live) :
    f.generation = s.nextGeneration ∨
      ∃ e ∈ s.evaluations, e.generation = f.generation ∧ e.live := by
  rcases heffect.evaluation_back hopen hopen' hf with hnew | ⟨e, he, hg, -⟩
  · exact .inl hnew
  by_cases he' : e.live
  · exact .inr ⟨e, he, hg, he'⟩
  -- one that was not live is none afterwards
  rcases heffect.steps_or_stays ho hopen hopen' he with
    hcourse | ⟨hmem, -⟩ | ⟨asker, key, fanOut, -, hmem⟩
  · exact absurd hlive (hcourse.not_live_kept he' hf hg.symm)
  · rw [ho'.eq_of_generation hf hmem hg] at he'
    exact absurd hlive he'
  · obtain rfl := ho'.eq_of_generation hf hmem ((State.generation_superseded e).trans hg)
    refine absurd hlive ?_
    obtain ⟨hcancelled, hbegun⟩ : e.cancelled = true ∧ e.stage.begun = false := by
      simpa [Evaluation.live] using he'
    rw [Evaluation.live, State.stage_superseded, hbegun]
    unfold State.superseded
    split <;> simp [hcancelled]

/-- An evaluation that was asked for by some moment of a run, and is live later, was live then. -/
theorem Run.live_back (background : u.ruleSet.throttle.background = true)
    (before : Run u (.start u grid) h₁ mid) (after : Run u mid h₂ s) (hopen : s.closed = false)
    (hasked : AskedFor h₁ key g) (hlive : ∃ e ∈ s.evaluations, e.generation = g ∧ e.live) :
    ∃ e ∈ mid.evaluations, e.generation = g ∧ e.live := by
  refine Run.induction_after background
    (motive := fun _ s => (∃ e ∈ s.evaluations, e.generation = g ∧ e.live) →
      ∃ e ∈ mid.evaluations, e.generation = g ∧ e.live) before id ?_ after hopen hlive
  rintro h s₁ y s₂ hlaw₁ hlaw₂ heffect hback ⟨f, hf, hg, hlive⟩
  rcases heffect.live_back hlaw₁.orderly hlaw₂.orderly hlaw₁.isOpen.closed hlaw₂.isOpen.closed hf
    hlive with hnew | ⟨e, he, heg, hlive⟩
  · have hbelow := hlaw₁.chronicle.below key g (hasked.append h)
    omega
  · exact hback ⟨e, he, heg.trans hg, hlive⟩

/-! ## Peers are entered before who selected them leaves -/

/-- Who asks on behalf of an evaluation is entered at once, and that evaluation is live before and
after. -/
theorem Effect.entered {asker : Nat} {fanOut : List String} (hopen : s.closed = false)
    (heffect : Effect u s (some (.asked (.evaluation asker) key g fanOut)) s') :
    s'.ledger.contains key = true ∧
      (∃ e ∈ s.evaluations, e.generation = asker ∧ e.live) ∧
      ∃ e ∈ s'.evaluations, e.generation = asker ∧ e.live := by
  cases heffect with
  | @course e _ _ hknown hcourse =>
    have he := State.mem_of_evaluation? hknown
    cases hcourse with
    | @spread _ _ keys hstage hs =>
      have halike := State.schedule_alike (u := u) hopen key []
      have hledger : s'.ledger = s.ledger.request key s.nextGeneration [] :=
        hs.ledger.trans halike.ledger
      refine ⟨by simp [hledger, Ledger.contains], ⟨e, he, rfl, .inr (by rw [hstage]; rfl)⟩,
        { e with stage := .spreading keys }, ?_, rfl, .inr rfl⟩
      rw [hs.evaluations]
      refine State.mem_setStage.mpr (.inr ⟨rfl, s.superseded u key e, ?_,
        State.generation_superseded e⟩)
      rw [halike.evaluations]
      exact List.mem_append_left _ (List.mem_map.mpr ⟨e, he, rfl⟩)
  | call _ hcourse => cases hcourse
  | outside hout => cases hout

/-- Between `next` and `s` the evaluation `g` asked for a cell, which was entered at once while `g`
was still live. -/
def Enters (u : Setup) (next : State) (h : List Happening) (s : State) (g : Nat) (peer : CellKey) :
    Prop :=
  ∃ k₁ after k₂ n, h = k₁ ++ .asked (.evaluation g) peer n [] :: k₂ ∧
    Run u next (k₁ ++ [.asked (.evaluation g) peer n []]) after ∧ Run u after k₂ s ∧
    after.ledger.contains peer = true ∧ ∃ e ∈ after.evaluations, e.generation = g ∧ e.live

/-- As long as a cell that an evaluation found concerned was not entered, the evaluation is live. -/
theorem Run.enters (background : u.ruleSet.throttle.background = true) {at₀ next : State}
    {fanOut : List String} {report : CellReport} {rows : Dataset}
    (hreporting : Reporting u grid h₁ at₀ key g fanOut report rows next) (after : Run u next h₂ s)
    (hopen : s.closed = false) {peer : CellKey} (hpeer : peer ∈ next.peers u key fanOut rows) :
    Enters u next h₂ s g peer ∨ ∃ e ∈ s.evaluations, e.generation = g ∧ e.live := by
  have before := hreporting.run.step hreporting.step
  obtain ⟨done, left, hcells, hdone, hleft⟩ := Run.spreading background hreporting after hopen
  rw [hcells] at hpeer
  rcases List.mem_append.mp hpeer with hpeer | hpeer
  · obtain ⟨n, hn⟩ := hdone peer hpeer
    obtain ⟨k₁, k₂, rfl⟩ := List.append_of_mem hn
    obtain ⟨at₁, hat₁, next₁, hstep, hrest⟩ := after.moment rfl
    obtain ⟨hlaw, heffect⟩ := (before.trans hat₁).lawful_step background
      (hstep.open (hrest.open hopen)) hstep
    obtain ⟨hentered, -, hlive⟩ := heffect.entered hlaw.isOpen.closed
    exact .inl ⟨k₁, next₁, k₂, n, rfl, hat₁.step hstep, hrest, hentered, hlive⟩
  · rcases hleft with rfl | ⟨e, he, hg, -, hstage⟩
    · cases hpeer
    · exact .inr ⟨e, he, hg, .inr (by rw [hstage]; rfl)⟩

/-! ## What an edit causes -/

/-- The evaluation `g` asked for the evaluation `g'`. -/
def Causes (h : List Happening) (g g' : Nat) : Prop :=
  ∃ key fanOut, .asked (.evaluation g) key g' fanOut ∈ h

/-- What an evaluation asked for by some moment causes in the end was asked for by then, too, or
something is live at that moment. -/
theorem Run.asked_or_live (background : u.ruleSet.throttle.background = true)
    (before : Run u (.start u grid) h₁ mid) (after : Run u mid h₂ s) (hopen : s.closed = false)
    {g₀ : Nat} (hfirst : AskedFor h₁ key g₀)
    (hcaused : Relation.ReflTransGen (Causes (h₁ ++ h₂)) g₀ g) :
    (∃ key, AskedFor h₁ key g) ∨ ∃ e ∈ mid.evaluations, e.live := by
  induction hcaused with
  | refl => exact .inl ⟨key, hfirst⟩
  | @tail g g' _ hcauses ih =>
    rcases ih with ⟨other, hasked⟩ | hlive
    · obtain ⟨peer, fanOut, hmem⟩ := hcauses
      rcases List.mem_append.mp hmem with hearly | hlate
      · exact .inl ⟨peer, _, fanOut, hearly⟩
      · -- `g` was live when it asked, so it was at the moment in question
        obtain ⟨k₁, k₂, rfl⟩ := List.append_of_mem hlate
        obtain ⟨at₁, hat₁, next₁, hstep, hrest⟩ := after.moment rfl
        have hopen₁ := hstep.open (hrest.open hopen)
        obtain ⟨hlaw, heffect⟩ := (before.trans hat₁).lawful_step background hopen₁ hstep
        obtain ⟨-, hlive, -⟩ := heffect.entered hopen₁
        obtain ⟨e, he, -, hlive⟩ := before.live_back background hat₁ hopen₁ hasked hlive
        exact .inr ⟨e, he, hlive⟩
    · exact .inr hlive

/-- The ledger is not empty as long as something that an edit caused is live or yet to come. -/
theorem Run.busy_of_caused (background : u.ruleSet.throttle.background = true)
    (before : Run u (.start u grid) h₁ mid) (after : Run u mid h₂ s) (hopen : s.closed = false)
    {g₀ : Nat} (hfirst : AskedFor h₁ key g₀)
    (hcaused : Relation.ReflTransGen (Causes (h₁ ++ h₂)) g₀ g)
    (hleft : (∃ e ∈ mid.evaluations, e.generation = g ∧ e.live) ∨ ∃ key, AskedFor h₂ key g) :
    mid.ledger.size ≠ 0 := by
  have hlaw := before.lawful background (after.open hopen)
  have hlive : ∃ e ∈ mid.evaluations, e.live := by
    rcases hleft with ⟨e, he, -, hlive⟩ | ⟨late, hlate⟩
    · exact ⟨e, he, hlive⟩
    · refine (before.asked_or_live background after hopen hfirst hcaused).resolve_left ?_
      rintro ⟨early, hearly⟩
      exact absurd ((before.trans after).asked_ascending background hopen hearly hlate)
        (Nat.lt_irrefl g)
  obtain ⟨e, he, hlive⟩ := hlive
  exact fun hzero => hlaw.orderly.size_eq_zero_iff.mp hzero e he hlive

/-! ## The ledger is truthful -/

/-- What the ledger tells of a state that a run came to, and what those who wait for rest learn. -/
structure Truthful (u : Setup) (grid : Grid) (h : List Happening) (s : State) : Prop where
  accounted : ∀ key, s.Accounted key
  /-- Who has begun is taken out of the entry when it finishes: as the newest one, or out of a count
  that is not zero. -/
  counted : ∀ e ∈ s.evaluations, e.stage.begun = true → ∃ c, s.ledger.find? e.key = some c ∧
    ((∃ r, c.current = some r ∧ r.generation = e.generation) ∨ 0 < c.superseded)
  /-- A cell that an evaluation found concerned when it reported is entered while that evaluation is
  live; until then it stays live. -/
  peersFirst : ∀ h₁ h₂ key g verdict, h = h₁ ++ .reported (.evaluation g) key verdict :: h₂ →
    ∃ at₀ next fanOut report rows, Reporting u grid h₁ at₀ key g fanOut report rows next ∧
      report.verdict = verdict ∧ Run u next h₂ s ∧
      ∀ peer ∈ next.peers u key fanOut rows,
        Enters u next h₂ s g peer ∨ ∃ e ∈ s.evaluations, e.generation = g ∧ e.live
  /-- However the run goes on: the ledger is not empty while something caused by an edit is live or
  will be asked for later. -/
  busy : ∀ h' s', Run u s h' s' → s'.closed = false → ∀ call key g₀ fanOut g,
    .asked (.call call) key g₀ fanOut ∈ h → Relation.ReflTransGen (Causes (h ++ h')) g₀ g →
    ((∃ e ∈ s.evaluations, e.generation = g ∧ e.live) ∨ ∃ key, AskedFor h' key g) →
      s.ledger.size ≠ 0
  /-- Every move that empties the ledger gives word of rest. -/
  word : ∀ m s', s.move? u m = some s' → s.ledger.isEmpty = false → s'.ledger.isEmpty = true →
    s.rests < s'.rests
  /-- Who waits for rest and leaves now does not leave too early. -/
  notEarly : ∀ w : Waiter, w.step? s = some .done → ∀ e ∈ s.evaluations, ¬e.live
  /-- Who came to wait, whenever that was, is not blocked now if the ledger is empty. -/
  notStuck : ∀ s₀ since, Waiting u s₀ .comes s (.blocked since) → s.ledger.isEmpty = true →
    (Waiter.blocked since).step? s = some .comes
  /-- Who came to wait, whenever that was, comes to the end by steps of its own if the ledger is
  empty. -/
  leaves : ∀ s₀ w, Waiting u s₀ .comes s w → s.ledger.isEmpty = true → w.Leaves s
  /-- Who came to wait and cannot go on now has left, or is blocked while something is live. -/
  held : ∀ s₀ w, Waiting u s₀ .comes s w → w.step? s = none →
    w = .done ∨ (∃ since, w = .blocked since) ∧ ∃ e ∈ s.evaluations, e.live

/-- In every state that a watch comes to before it is closed, where edited cells are judged in the
background, the ledger is truthful. -/
theorem pending_truthful (background : u.ruleSet.throttle.background = true)
    (run : Run u (.start u grid) h s) (hopen : s.closed = false) : Truthful u grid h s where
  accounted := (run.lawful background hopen).orderly.accounted
  counted e he hbegun :=
    ((run.lawful background hopen).orderly.fits e.key).newest_or_older (State.standing_mem he) hbegun
  peersFirst h₁ h₂ key g verdict hx := by
    obtain ⟨at₀, next, fanOut, report, rows, hreporting, hverdict, after⟩ :=
      run.reporting background hx
    exact ⟨at₀, next, fanOut, report, rows, hreporting, hverdict, after, fun peer hpeer =>
      Run.enters background hreporting after hopen hpeer⟩
  busy h' s' after hopen' call key g₀ fanOut g hasked hcaused hleft :=
    run.busy_of_caused background after hopen' ⟨.call call, fanOut, hasked⟩ hcaused hleft
  word m s' hm hbusy hempty :=
    ((State.calms_move? hm).word hempty).resolve_left (by simp [hbusy])
  notEarly w hw :=
    (run.lawful background hopen).orderly.size_eq_zero_iff.mp
      (Ledger.isEmpty_iff_size.mp (Waiter.isEmpty_of_done hw))
  notStuck s₀ since hwaiting hempty := hwaiting.not_stuck hempty
  leaves s₀ w hwaiting hempty := hwaiting.leaves hempty
  held s₀ w hwaiting hheld := by
    refine (hwaiting.held hheld).imp id fun ⟨hblocked, hbusy⟩ => ⟨hblocked, ?_⟩
    by_contra hnone
    have hzero := (run.lawful background hopen).orderly.size_eq_zero_iff.mpr
      fun e he hlive => hnone ⟨e, he, hlive⟩
    cases hbusy.symm.trans (Ledger.isEmpty_iff_size.mpr hzero)

/-- While the rule is asleep for the first edit of a cell, the evaluation for the second one begins:
both are live, and the entry counts both. -/
theorem pending_truthful_overlapping :
    ∃ h s, Run slowWatch (.start slowWatch oneCell) h s ∧ s.closed = false ∧
      s.ledger.find? ⟨0, "Code"⟩ = some ⟨some ⟨1, .running, []⟩, 1, none⟩ ∧
      (s.liveOf ⟨0, "Code"⟩).length = 2 ∧ Truthful slowWatch oneCell h s := by
  have hrecord : ((State.start slowWatch oneCell).record? slowWatch (overlappingEdits.take 17)).map
      (fun p => (p.2.closed, p.2.ledger.find? ⟨0, "Code"⟩))
        = some (false, some ⟨some ⟨1, .running, []⟩, 1, none⟩) := by
    decide +kernel
  obtain ⟨⟨h, s⟩, hs, heq⟩ := Option.map_eq_some_iff.mp hrecord
  obtain ⟨hopen, hentry⟩ := Prod.mk.inj heq
  have run := Run.of_record? hs
  have htruthful := pending_truthful rfl run hopen
  refine ⟨h, s, run, hopen, hentry, ?_, htruthful⟩
  rw [(htruthful.accounted ⟨0, "Code"⟩).count, hentry]
  rfl

end CellRules.Watch
