/-
CellRules.Proofs.Watch.Threads.Lawful — what every run of tasks beside each other keeps.

* `Threads.Lawful` — the docket of each cell is sound until somebody who closes the watch forgets
  what is pending; while the watch is open, nobody waits in vain for the evaluation that was asked
  for last, and it is not lost as long as no evaluation meets a problem.
* `Effect.lawful`, `Run.lawful` — every turn keeps that, so it holds of every run.
-/
import CellRules.Proofs.Watch.Apart
import CellRules.Proofs.Watch.Threads.Cells

namespace CellRules.Watch

variable {u : Setup}

namespace Threads

variable {t t' : Threads} {h : List Happening} {x : Option Happening} {key : CellKey} {g : Nat}
  {e : Evaluation} {task : Task}

/-! ## Closing -/

/-- Who closes the watch closes it first, and only such a one bars the slots. They stay barred. -/
theorem Effect.gates (heffect : Effect u t x t') :
    (t'.closers = t.closers ∧ t'.state.closed = t.state.closed ∧
        t'.state.limiter.closed = t.state.limiter.closed) ∨
      (t'.closers ≠ [] ∧
        (t'.state.closed = true ∨ t.closers ≠ [] ∧ t'.state.closed = t.state.closed) ∧
        (t.state.limiter.closed = true → t'.state.limiter.closed = true)) := by
  cases heffect with
  | strides _ _ hstride =>
    cases hstride with
    | arms _ state | begins _ _ state | drops _ _ state | queues _ state | reads _ state
    | givesUp _ _ state | goesOn _ _ state | ends _ _ state | abandons _ _ state | fails _ state
    | skips _ _ state | finishes _ state => exact .inl ⟨rfl, state.closed, state.limiterClosed⟩
  | opens _ _ hfirst =>
    obtain ⟨-, -, -, hclosed, hslots⟩ := hfirst.kept
    exact .inl ⟨rfl, hclosed, congrArg Limiter.closed hslots⟩
  | @launches task key generation previous told =>
    have h := alike_launch (u := u) (t.leave task) key generation previous told
    exact .inl ⟨rfl, h.closed, h.limiterClosed⟩
  | @outdone e =>
    have hout := State.alike_leaveOut u t.state e
    exact .inl ⟨rfl, hout.closed, hout.limiterClosed⟩
  | @follows task next =>
    obtain ⟨hclosed, hslots⟩ := (t.state.follows u next task).gates
    exact .inl ⟨rfl, hclosed, hslots⟩
  | calls hknown _ _ _ hadvance =>
    have hs : t.state.Advances u _ := .inr ⟨_, hknown, hadvance⟩
    exact .inl ⟨rfl, hs.closed, hs.slots⟩
  | @outside m _ houter hm =>
    cases m with
    | setCell row column cell =>
      obtain ⟨grid, -, rfl⟩ := State.set_of_move? hm
      exact .inl ⟨rfl, rfl, rfl⟩
    | pushRow values | edit row column | validateAll | pass millis =>
      obtain rfl := Option.some.inj hm
      exact .inl ⟨rfl, rfl, rfl⟩
    | shutDown | step task | takeSlot generation => cases houter
  | tellsAll => exact .inr ⟨by simp, .inl rfl, id⟩
  | bars hcloser =>
    have hsome := List.ne_nil_of_mem (List.mem_of_getElem? hcloser)
    exact .inr ⟨by simp [hsome], .inr ⟨hsome, rfl⟩, fun _ => rfl⟩
  | forgets hcloser | announces hcloser =>
    have hsome := List.ne_nil_of_mem (List.mem_of_getElem? hcloser)
    exact .inr ⟨by simp [hsome], .inr ⟨hsome, rfl⟩, id⟩
  | spreads | admits | draws | enters | claims | hands | records | concludes | looks =>
    exact .inl ⟨rfl, rfl, rfl⟩

theorem Gate.step (hg : t.Gate) (heffect : Effect u t x t') : t'.Gate := by
  rcases heffect.gates with ⟨hclosers, hclosed, hslots⟩ | ⟨hclosers, hwhy, -⟩
  · rw [Gate, hclosers, hclosed, hslots]
    exact hg
  · refine .inr ⟨hclosers, hwhy.elim id fun ⟨hsome, hclosed⟩ => ?_⟩
    rcases hg with ⟨hnone, -⟩ | ⟨-, hg⟩
    · exact absurd hnone hsome
    · exact hclosed.trans hg

/-- A closed watch stays closed. -/
theorem Effect.open (heffect : Effect u t x t') (hopen : t'.state.closed = false) :
    t.state.closed = false := by
  rcases heffect.gates with ⟨-, hclosed, -⟩ | ⟨-, hclosed | ⟨hsome, hclosed⟩, -⟩
  · exact hclosed.symm.trans hopen
  · cases hclosed.symm.trans hopen
  · exact hclosed.symm.trans hopen

/-- What is forgotten stays forgotten. -/
theorem Effect.unforgotten (heffect : Effect u t x t') (hknown : t'.Unforgotten) :
    t.Unforgotten := by
  cases heffect with
  | tellsAll => exact fun c hc => hknown c (List.mem_append_left _ hc)
  | @bars closer htold =>
    intro c hc
    obtain ⟨i, hi, rfl⟩ := List.mem_iff_getElem.mp hc
    by_cases hic : i = closer
    · subst hic
      exact .inl (Option.some.inj ((List.getElem?_eq_getElem hi).symm.trans htold))
    · refine hknown _ (List.mem_iff_getElem.mpr ⟨i, by simpa using hi, ?_⟩)
      simp [Ne.symm hic]
  | @forgets closer hbarred =>
    have hlt := (List.getElem?_eq_some_iff.mp hbarred).1
    rcases hknown _ (List.mem_set hlt _) with hearly | hearly <;> cases hearly
  | @announces closer abandoned hforgot =>
    have hlt := (List.getElem?_eq_some_iff.mp hforgot).1
    rcases hknown _ (List.mem_set hlt _) with hearly | hearly <;> cases hearly
  | _ => exact hknown

/-! ## The evaluation asked for last is wanted -/

theorem askedOf_concat (asker : Task) (fanOut : List String) (other : CellKey) :
    askedOf other (h ++ [.asked asker key g fanOut])
      = askedOf other h ++ if key = other then [g] else [] := by
  rw [askedOf, notesOf_concat, List.filterMap_append, askedOf]
  by_cases hkey : key = other <;> simp [Happening.note?, hkey, Note.asked?]

theorem askedOf_same (hx : ∀ y, x = some y → y.asks = false) :
    askedOf key (h ++ x.toList) = askedOf key h := by
  cases x with
  | none => simp
  | some y =>
    have hnone : (y.note? key).toList.filterMap Note.asked? = [] := by
      have hy := hx y rfl
      cases y with
      | asked => cases hy
      | reported reporter k v =>
        cases reporter with
        | evaluation n =>
          simp only [Happening.note?]
          split <;> rfl
        | call id | strand id strand => rfl
      | wrote | pushed | told | calledAll | closed | began | read | surveyed | dropped | failed =>
        rfl
    rw [askedOf, Option.toList_some, notesOf_concat, List.filterMap_append, hnone,
      List.append_nil, askedOf]

/-- Whoever has entered an evaluation had done so before another task took its stand. -/
theorem entered_of_stand {p : Position} {s : State}
    (hp : ∀ k n previous told, p ≠ .entered k n previous told) (other : Task) (k : CellKey)
    (n : Nat) (previous : Option Request) (told : Bool)
    (hstands : ((t.stand task p).withState s).position? other = some (.entered k n previous told)) :
    t.position? other = some (.entered k n previous told) := by
  rcases position_of_stand hstands with ⟨-, heq⟩ | ⟨-, hold⟩
  · exact absurd heq.symm (hp _ _ _ _)
  · exact hold

theorem entered_of_leave {s : State} (other : Task) (k : CellKey) (n : Nat)
    (previous : Option Request) (told : Bool)
    (hstands : ((t.leave task).withState s).position? other = some (.entered k n previous told)) :
    t.position? other = some (.entered k n previous told) :=
  (position_of_leave hstands).2

namespace Wanted

variable (hw : t.Wanted h)

include hw

/-- Nobody is told to stop. -/
theorem keep (hx : ∀ y, x = some y → y.asks = false)
    (hevaluations : ∀ g e', t'.state.evaluation? g = some e' →
      ∃ e, t.state.evaluation? g = some e ∧ e'.key = e.key ∧ e'.cancelled = e.cancelled)
    (hpositions : ∀ task key g previous told,
      t'.position? task = some (.entered key g previous told) →
      t.position? task = some (.entered key g previous told)) : t'.Wanted (h ++ x.toList) where
  cancelled g e' he' hcancelled := by
    obtain ⟨e, he, hkey, hsame⟩ := hevaluations g e' he'
    rw [askedOf_same hx, hkey]
    exact hw.cancelled g e he (hsame.symm.trans hcancelled)
  told task key g previous hp := by
    rw [askedOf_same hx]
    exact hw.told task key g previous (hpositions _ _ _ _ _ hp)
  previous task key g r told hp := by
    obtain ⟨hasked, hlast⟩ := hw.previous task key g r told (hpositions _ _ _ _ _ hp)
    rw [askedOf_same hx]
    exact ⟨hasked.append _, hlast⟩

/-- An evaluation is entered in the place of the one that was asked for last before. -/
theorem enter (ho : t.Orderly h) (hcounted : (t.docket h key).Counted) {asker : Task}
    {fanOut : List String} (hp : t.position? asker = some (.drawn key fanOut g)) :
    ((t.stand asker (.entered key g (t.state.ledger.current? key) false)).withState
      (t.state.enter key g fanOut)).Wanted (h ++ [.asked asker key g fanOut]) := by
  have hfresh := (ho.drawn asker key fanOut g hp).2
  -- whoever was asked for before is not this one
  have hkept : ∀ {other n}, AskedFor h other n → (askedOf other h).getLast? ≠ some n →
      (askedOf other (h ++ [.asked asker key g fanOut])).getLast? ≠ some n := by
    intro other n hasked hlast
    rw [askedOf_concat]
    split
    · rw [List.getLast?_concat]
      rintro ⟨⟩
      exact hfresh other hasked
    · rwa [List.append_nil]
  have hpositions : ∀ {task k n previous told},
      ((t.stand asker (.entered key g (t.state.ledger.current? key) false)).withState
        (t.state.enter key g fanOut)).position? task = some (.entered k n previous told) →
      t.position? task = some (.entered k n previous told) ∨
        (k = key ∧ previous = t.state.ledger.current? key ∧ told = false) := by
    intro task k n previous told hp'
    rcases position_of_stand hp' with ⟨-, heq⟩ | ⟨-, hold⟩
    · cases heq
      exact .inr ⟨rfl, rfl, rfl⟩
    · exact .inl hold
  constructor
  · intro n e he hcancelled
    exact hkept (ho.asked n e he) (hw.cancelled n e he hcancelled)
  · intro task k n previous hp'
    rcases hpositions hp' with hold | ⟨-, -, hfalse⟩
    · exact hkept (ho.entered task k n previous true hold).1 (hw.told task k n previous hold)
    · cases hfalse
  · intro task k n r told hp'
    rcases hpositions hp' with hold | ⟨rfl, hr, -⟩
    · obtain ⟨hasked, hlast⟩ := hw.previous task k n r told hold
      exact ⟨hasked.append _, hkept hasked hlast⟩
    · obtain ⟨c, hc, hcur⟩ := Ledger.current?_eq_some.mp hr.symm
      have hlast := hcounted.newest r.generation ⟨c, r, hc, hcur, rfl⟩
      have hasked : AskedFor h k r.generation := mem_askedOf.mp (List.mem_of_getLast? hlast)
      refine ⟨hasked.append _, ?_⟩
      rw [askedOf_concat, if_pos rfl, List.getLast?_concat]
      rintro ⟨⟩
      exact hfresh k hasked

/-- The one whose place it took is told to stop. -/
theorem launch (ho : t.Orderly h) {previous : Option Request} {told : Bool}
    (hp : t.position? task = some (.entered key g previous told)) :
    ((t.leave task).launch u key g previous told).Wanted h := by
  obtain ⟨hasked, hgone⟩ := ho.entered task key g previous told hp
  have hfree : ((t.leave task).launch u key g previous told).position? task = none :=
    position_launch_none position?_leave_self
  have hback : ∀ {other p}, ((t.leave task).launch u key g previous told).position? other = some p →
      (t.leave task).position? other = t.position? other := by
    rintro other p hp'
    refine position?_leave_of_ne ?_
    rintro rfl
    cases hfree.symm.trans hp'
  -- the one whose place was taken is not the one asked for last
  have hprevious : ∀ {other n r}, AskedFor h other n → previous = some r → n = r.generation →
      (askedOf other h).getLast? ≠ some n := by
    rintro other n r hn rfl rfl
    obtain ⟨hr, hlast⟩ := hw.previous task key g r told hp
    rwa [ho.unique other key r.generation hn hr]
  constructor
  · intro n e' he' hcancelled
    by_cases hng : n = g
    · subst hng
      obtain ⟨e, he, hkey, -, htold⟩ := evaluation?_launch_self (u := u) (t := t.leave task)
        key previous told hgone
      obtain rfl := Option.some.inj (he'.symm.trans he)
      rw [hkey]
      exact hw.told task key n previous (by rw [hp, htold hcancelled])
    · cases he : t.state.evaluation? n with
      | none =>
        cases he'.symm.trans (evaluation?_launch_of_ne (t := t.leave task) _ _ _ he hng)
      | some e =>
        obtain ⟨f, hf, hkey, -, hwhy⟩ := evaluation?_launch_of_some (u := u) (t := t.leave task)
          (g := g) key previous told he
        obtain rfl := Option.some.inj (he'.symm.trans hf)
        rw [hkey]
        rcases hwhy hcancelled with hold | ⟨-, rfl⟩ | ⟨r, hr, hn, -⟩
        · exact hw.cancelled n e he hold
        · exact absurd rfl hng
        · exact hprevious (ho.asked n e he) hr hn
  · intro other k n old hp'
    rcases position_of_launch hp' with hsame | ⟨k', n', old', was, is, hwas, heq, hwhy⟩
    · exact hw.told other k n old ((hback hp').symm.trans hsame)
    · cases heq
      rw [hback hp'] at hwas
      rcases hwhy rfl with rfl | ⟨r, hr, hn⟩
      · exact hw.told other k n old hwas
      · exact hprevious (ho.entered other k n old was hwas).1 hr hn
  · intro other k n r is hp'
    rcases position_of_launch hp' with hsame | ⟨k', n', old', was, is', hwas, heq, -⟩
    · exact hw.previous other k n r is ((hback hp').symm.trans hsame)
    · cases heq
      exact hw.previous other k n r was ((hback hp').symm.trans hwas)

/-- Every turn keeps it while the dockets are sound. -/
theorem step (ho : t.Orderly h) (hcounted : ∀ key, (t.docket h key).Counted)
    (heffect : Effect u t x t') : t'.Wanted (h ++ x.toList) := by
  have hsame : ∀ g e, t.state.evaluation? g = some e →
      ∃ f, t.state.evaluation? g = some f ∧ e.key = f.key ∧ e.cancelled = f.cancelled :=
    fun g e he => ⟨e, he, rfl, rfl⟩
  have hset : ∀ {e : Evaluation} {s' : State}, t.state.evaluation? e.generation = some e →
      (∀ g, g ≠ e.generation → s'.evaluation? g = t.state.evaluation? g) →
      (s'.evaluation? e.generation = none ∨
        ∃ stage, s'.evaluation? e.generation = some { e with stage }) →
      ∀ g e', s'.evaluation? g = some e' →
        ∃ f, t.state.evaluation? g = some f ∧ e'.key = f.key ∧ e'.cancelled = f.cancelled := by
    intro e s' he hothers hown g e' he'
    by_cases hg : g = e.generation
    · subst hg
      rcases hown with hnone | ⟨stage, hown⟩
      · cases he'.symm.trans hnone
      · obtain rfl := Option.some.inj (he'.symm.trans hown)
        exact ⟨e, he, rfl, rfl⟩
    · exact ⟨e', (hothers g hg).symm.trans he', rfl, rfl⟩
  cases heffect with
  | strides hknown _ hstride =>
    exact hw.keep (fun y hy => Happening.asks_of_quiet (hstride.quiet y hy))
      (hset hknown (fun g hg => hstride.others hg) (hstride.own hknown)) fun _ _ _ _ _ => id
  | spreads hknown | admits hknown =>
    exact hw.keep (by simp) (hset hknown (fun g hg => State.evaluation?_setStage_of_ne hg _)
      (.inr ⟨_, State.evaluation?_setStage hknown⟩)) (entered_of_stand (by simp))
  | @opens c s p _ _ hfirst =>
    refine hw.keep (fun y hy => ?_) (fun g e he => ⟨e, ?_, rfl, rfl⟩) (entered_of_stand ?_)
    · cases p with
      | handed => cases hy; rfl
      | asks | drawn | entered | admitted | claimed | recorded | looks => cases hy
    · exact (State.evaluation?_congr hfirst.kept.1 g).symm.trans he
    · rintro key g previous told rfl
      cases hfirst.position.1
  | draws => exact hw.keep (x := none) (by simp) hsame (entered_of_stand (by simp))
  | enters hp => exact hw.enter ho (hcounted _) hp
  | launches hp => simpa using hw.launch ho hp
  | claims => exact hw.keep (x := none) (by simp) hsame (entered_of_stand (by simp))
  | @outdone e _ _ hknown =>
    exact hw.keep (fun y hy => by cases hy; rfl) (hset hknown
      (fun g hg => State.evaluation?_leaveOut_of_ne hg)
      (.inr ⟨_, State.evaluation?_leaveOut_self hknown⟩)) entered_of_leave
  | hands => exact hw.keep (fun y hy => by cases hy; rfl) hsame (entered_of_stand (by simp))
  | records => exact hw.keep (x := none) (by simp) hsame (entered_of_stand (by simp))
  | concludes => exact hw.keep (x := none) (by simp) hsame entered_of_leave
  | @follows task next =>
    exact hw.keep (by simp) (fun g e' he' => (t.state.follows u next task).back he')
      entered_of_leave
  | looks => exact hw.keep (fun y hy => by cases hy; rfl) hsame entered_of_leave
  | calls hknown _ hwhole hseen hadvance =>
    obtain ⟨hevaluations, hgeneration, -⟩ := hadvance.kept hknown hwhole
    refine hw.keep (fun y hy => ?_) (fun g e he => ⟨e, ?_, rfl, rfl⟩) fun _ _ _ _ _ => id
    · rcases hseen with rfl | rfl
      · cases hy
      · exact Happening.asks_of_quiet (Call.quiet_of_seen hgeneration hy)
    · exact (State.evaluation?_congr hevaluations g).symm.trans he
  | outside houter hm =>
    exact hw.keep (fun y hy => Happening.asks_of_quiet (Move.quiet_of_outer houter y hy))
      (fun g e he => ⟨e, (State.evaluation?_congr (Move.kept_of_outer houter hm).1 g).symm.trans he,
        rfl, rfl⟩) fun _ _ _ _ _ => id
  | tellsAll => exact hw.keep (fun y hy => by cases hy; rfl) hsame fun _ _ _ _ _ => id
  | bars | forgets | announces => exact hw.keep (by simp) hsame fun _ _ _ _ _ => id

end Wanted

/-- One who forgets what is pending forgets the entry of every cell. -/
theorem Effect.remembers (heffect : Effect u t x t') (hknown : t.Unforgotten) :
    t'.Unforgotten ∨
      ∀ key, t'.docket (h ++ x.toList) key = { t.docket h key with entry := none } := by
  cases heffect with
  | tellsAll =>
    left
    intro c hc
    rcases List.mem_append.mp hc with hc | hc
    · exact hknown c hc
    · exact .inl (List.mem_singleton.mp hc)
  | bars =>
    left
    intro c hc
    rcases List.mem_or_eq_of_mem_set hc with hc | rfl
    · exact hknown c hc
    · exact .inr rfl
  | forgets =>
    right
    intro key
    rw [Option.toList_none, List.append_nil]
    rfl
  | announces hforgot =>
    rcases hknown _ (List.mem_of_getElem? hforgot) with h | h <;> cases h
  | _ => exact .inl hknown

/-! ## Runs -/

/-- No evaluation of the cell is entered into the ledger once somebody closes the watch. -/
def NoneLate (key : CellKey) (h : List Happening) : Prop :=
  ∀ h₁ h₂, h = h₁ ++ .closed :: h₂ → ∀ g, ¬AskedFor h₂ key g

theorem NoneLate.prefix (hlate : NoneLate key (h ++ x.toList)) : NoneLate key h := by
  rintro h₁ h₂ rfl g hasked
  exact hlate h₁ (h₂ ++ x.toList) (by simp) g (hasked.append _)

theorem NoneLate.askedOf_eq (hlate : NoneLate key (h ++ x.toList)) (hclosed : .closed ∈ h) :
    askedOf key (h ++ x.toList) = askedOf key h := by
  obtain ⟨h₁, h₂, rfl⟩ := List.append_of_mem hclosed
  cases x with
  | none => simp
  | some y =>
    cases y with
    | asked asker k g fanOut =>
      have hne : k ≠ key := by
        rintro rfl
        exact hlate h₁ (h₂ ++ [.asked asker k g fanOut]) (by simp) g ⟨asker, fanOut, by simp⟩
      rw [Option.toList_some, askedOf_concat, if_neg hne, List.append_nil]
    | wrote | pushed | told | calledAll | closed | began | read | surveyed | reported | dropped
    | failed => exact askedOf_same fun y hy => by cases hy; rfl

/-- What every run keeps. -/
structure Lawful (t : Threads) (h : List Happening) : Prop where
  orderly : t.Orderly h
  gate : t.Gate
  shut : t.closers ≠ [] → .closed ∈ h
  sound : t.Unforgotten → ∀ key, (t.docket h key).Sound
  spent : ¬t.Unforgotten → ∀ key, NoneLate key h → (t.docket h key).Spent
  wanted : t.state.closed = false → t.Wanted h
  lasting : t.state.closed = false → (∀ y ∈ h, y.isProblem = false) →
    ∀ key, (t.docket h key).Lasting

theorem Gate.unforgotten (hg : t.Gate) (hopen : t.state.closed = false) : t.Unforgotten := by
  rcases hg with ⟨hnone, -⟩ | ⟨-, hclosed⟩
  · simp [Unforgotten, hnone]
  · cases hopen.symm.trans hclosed

theorem lawful_start (u : Setup) (grid : Grid) : (whole (.start u grid)).Lawful [] := by
  have hplace : ∀ key, (whole (.start u grid)).placeOf key = fun _ => .away := by
    intro key
    funext g
    refine placeOf_away rfl ?_
    rintro ⟨task, previous, told, hp⟩
    cases hp
  have hempty : ∀ key, (whole (.start u grid)).docket [] key = {} := by
    intro key
    rw [docket, hplace]
    rfl
  refine ⟨orderly_whole _ rfl, .inl ⟨rfl, rfl, rfl⟩, by simp [whole], fun _ key => ?_,
    fun hforgot => ?_, fun _ => ⟨?_, ?_, ?_⟩, fun _ _ key => ?_⟩
  · rw [hempty]
    exact Docket.sound_empty
  · exact absurd (by simp [Unforgotten, whole]) hforgot
  · intro g e he
    cases he
  · intro task key g previous hp
    cases hp
  · intro task key g r told hp
    cases hp
  · rw [hempty]
    exact Docket.lasting_empty

/-- A watch is closed by a happening of its own. -/
theorem Effect.shut (heffect : Effect u t x t') (hsome : t'.closers ≠ []) :
    t.closers ≠ [] ∨ x = some .closed := by
  cases heffect with
  | tellsAll => exact .inr rfl
  | bars hcloser | forgets hcloser | announces hcloser =>
    have hlt := (List.getElem?_eq_some_iff.mp hcloser).1
    exact .inl (List.ne_nil_of_length_pos (Nat.zero_lt_of_lt hlt))
  | _ => exact .inl hsome

theorem Lawful.step (hl : t.Lawful h) (heffect : Effect u t x t') : t'.Lawful (h ++ x.toList) := by
  have hgate := hl.gate.step heffect
  -- a docket takes no strict step unless the watch is open and no evaluation meets a problem
  have hfollows := fun key => heffect.docket false hl.orderly hl.wanted hl.gate
    (by simp) key
  refine ⟨heffect.orderly hl.orderly, hgate, fun hsome => ?_, fun hknown key => ?_,
    fun hforgot key hlate => ?_, fun hopen => ?_, fun hopen hfine key => ?_⟩
  · rcases heffect.shut hsome with hold | rfl
    · exact List.mem_append_left _ (hl.shut hold)
    · simp
  · have hsound := hl.sound (heffect.unforgotten hknown) key
    rcases hfollows key with (hsame | hstep) | ⟨hforgot, -⟩
    · rw [hsame]
      exact hsound
    · exact hsound.step hstep
    · exact absurd hknown hforgot
  · by_cases hknown : t.Unforgotten
    · -- the turn that forgets what is pending
      rcases heffect.remembers hknown with hstill | hforgets
      · exact absurd hstill hforgot
      · rw [hforgets key]
        exact (hl.sound hknown key).spent
    · have hspent := hl.spent hknown key hlate.prefix
      have hclosers : t.closers ≠ [] := by
        intro hnone
        exact hknown (by simp [Unforgotten, hnone])
      have hasked : (t'.docket (h ++ x.toList) key).asked = (t.docket h key).asked :=
        hlate.askedOf_eq (hl.shut hclosers)
      rcases hfollows key with (hsame | hstep) | ⟨-, hnone⟩
      · rw [hsame]
        exact hspent
      · exact hspent.step hstep hasked
      · rw [hnone]
        exact hspent.forget
  · have hopen₀ := heffect.open hopen
    exact (hl.wanted hopen₀).step hl.orderly
      (fun key => (hl.sound (hl.gate.unforgotten hopen₀) key).toCounted) heffect
  · have hopen₀ := heffect.open hopen
    have hsound := hl.sound (hl.gate.unforgotten hopen₀) key
    have hlasting := hl.lasting hopen₀ (fun y hy => hfine y (List.mem_append_left _ hy)) key
    rcases heffect.docket true hl.orderly hl.wanted hl.gate
      (fun _ => ⟨hopen, fun y hy => hfine y (by simp [hy])⟩) key with
      (hsame | hstep) | ⟨hforgot, -⟩
    · rw [hsame]
      exact hlasting
    · exact hlasting.step hsound hstep
    · exact absurd (hgate.unforgotten hopen) hforgot

/-- Every run keeps it. -/
theorem Run.lawful (run : Run u t h t') (hl : t.Lawful []) : t'.Lawful h := by
  induction run with
  | rest => exact hl
  | turn turn _ hturn ih => exact ih.step (effect_of_turn? hturn)

end Threads

end CellRules.Watch
