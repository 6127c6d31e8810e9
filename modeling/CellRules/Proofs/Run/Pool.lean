/-
CellRules.Proofs.Run.Pool — a pool answers for all its pieces.

Strands take their steps in any order, so the answers come in any order; but none is lost and none
comes twice. `Heads stopped ends p` says so at every step: the answers that are there, those that
the strands head for and those of the pieces that have not begun are, taken together, `ends`
(`Heads.advance`). A pool that ends well has therefore come to all of them (`Heads.result`). What a
step of a strand does is read off `Pool.step?` once (`Takes`), and what it leaves of the pool's work
is read off that (`Advance`).

If nobody is told to stop, `ends` are the answers of the pieces (`Sound`).
-/
import CellRules.Proofs.Run.Heading
import CellRules.Run.Pool
import Mathlib.Data.List.Nodup
import Mathlib.Data.List.Perm.Basic

namespace CellRules

variable {α : Type}

/-- The answer that a piece heads for. One that is told to stop gets no slot any more. -/
def Progress.heads (usesSlots stopped : Bool) : Progress α → Except Problem α
  | .fresh work => if usesSlots && stopped then .error .schedulerClosed else work.heads stopped
  | .inLine _ work => if stopped then .error .schedulerClosed else work.answer
  | .running work => work.heads stopped

/-- The steps that a piece has left to take, those to its slot included. -/
def Progress.steps : Progress α → Nat
  | .fresh work => work.steps + 2
  | .inLine _ work => work.steps + 1
  | .running work => work.steps

theorem Progress.steps_pos (progress : Progress α) : 0 < progress.steps := by
  cases progress with
  | running work =>
    cases work with
    | working work => exact work.steps_pos
    | asleep => exact Nat.succ_pos _
  | _ => exact Nat.succ_pos _

/-- Taking out of a list the one member with its name. -/
theorem perm_cons_filter {β : Type} [DecidableEq β] {f : α → β} {a : α} {l : List α}
    (hl : (l.map f).Nodup) (ha : a ∈ l) : l.Perm (a :: l.filter (f · != f a)) := by
  induction l with
  | nil => cases ha
  | cons b l ih =>
    rw [List.map_cons, List.nodup_cons] at hl
    by_cases h : f b = f a
    · have hba : b = a := by
        rcases List.mem_cons.mp ha with ha | ha
        · exact ha.symm
        · exact absurd (List.mem_map.mpr ⟨a, ha, h.symm⟩) hl.1
      subst hba
      have hrest : l.filter (f · != f b) = l := by
        refine List.filter_eq_self.mpr fun c hc => ?_
        rw [bne_iff_ne]
        exact fun hcb => hl.1 (List.mem_map.mpr ⟨c, hc, hcb⟩)
      rw [List.filter_cons_of_neg (by simp), hrest]
    · have hmem : a ∈ l := (List.mem_cons.mp ha).resolve_left fun hab => h (by rw [hab])
      rw [List.filter_cons_of_pos (by simpa using h)]
      exact ((ih hl.2 hmem).cons b).trans (.swap a b _)

/-- Putting another one in the place of the one member with its name. -/
theorem perm_cons_replace {β : Type} [DecidableEq β] {f : α → β} {a : α} {l : List α}
    (hl : (l.map f).Nodup) (ha : a ∈ l) (b : α) :
    (l.map fun c => if f c = f a then b else c).Perm (b :: l.filter (f · != f a)) := by
  have hrest : (l.filter (f · != f a)).map (fun c => if f c = f a then b else c)
      = l.filter (f · != f a) := by
    refine (List.map_congr_left fun c hc => ?_).trans (List.map_id _)
    rw [if_neg (bne_iff_ne.mp (List.mem_filter.mp hc).2)]
    rfl
  simpa [hrest] using (perm_cons_filter hl ha).map fun c => if f c = f a then b else c

/-! ## Slots -/

namespace Limiter

variable (l : Limiter) (ticket : Ticket)

theorem closed_release : l.release.closed = l.closed := by
  unfold Limiter.release
  split <;> rfl

theorem closed_leave : (l.leave ticket).closed = l.closed := by
  unfold Limiter.leave
  split
  · rw [closed_release]
  · rfl

theorem closed_join : l.join.2.2.closed = l.closed := by
  unfold Limiter.join
  split
  · rfl
  · split <;> rfl

theorem join_open (h : l.closed = false) : l.join.1 ≠ .closed := by
  unfold Limiter.join
  split
  · simp_all
  · split <;> simp

theorem attempt_open (h : l.closed = false) : l.attempt ticket ≠ .closed := by
  unfold Limiter.attempt
  split
  · simp_all
  · split <;> simp

end Limiter

namespace Pool

variable {p p' : Pool α} {pieces : List (Work α)} {t : Strand α} {stopped : Bool}
  {ends : List (Except Problem α)}

/-! ## Slots of a pool -/

theorem closed_giveUp (t : Strand α) (l : Limiter) : (giveUp t l).closed = l.closed := by
  unfold giveUp
  split
  · exact l.closed_leave _
  · split
    · exact l.closed_release
    · rfl

theorem closed_fail (p : Pool α) (l : Limiter) (problem : Problem) :
    (p.fail l problem).2.closed = l.closed := by
  unfold fail
  dsimp only
  generalize p.strands = strands
  induction strands generalizing l with
  | nil => rfl
  | cons t strands ih => rw [List.foldl_cons, ih, closed_giveUp]

theorem closed_finish (p : Pool α) (t : Strand α) (l : Limiter) (answer : α) :
    (p.finish t l answer).2.closed = l.closed := by
  unfold finish
  dsimp only
  split
  · exact l.closed_release
  · rfl

/-! ## The steps of a strand -/

/-- What a step of a strand does to its pool and to the slots, by where the strand stands. -/
inductive Takes (now : Nat) (cancelled : Bool) (l : Limiter) (p : Pool α) (t : Strand α) :
    Pool α → Limiter → List Event → Prop
  | begins {work : Work α} (stands : t.progress = .fresh work) (slots : p.usesSlots = false) :
      Takes now cancelled l p t
        (p.update { t with holds := false, progress := .running (.working work) }) l []
  | slot {work : Work α} (stands : t.progress = .fresh work) (slots : p.usesSlots = true)
      (opened : l.closed = false) (free : 0 < l.free) :
      Takes now cancelled l p t
        (p.update { t with holds := true, progress := .running (.working work) })
        { l with free := l.free - 1 } []
  | queues {work : Work α} (stands : t.progress = .fresh work) (slots : p.usesSlots = true)
      (opened : l.closed = false) (full : l.free = 0) :
      Takes now cancelled l p t (p.update { t with progress := .inLine l.nextTicket work })
        { l with line := l.line ++ [l.nextTicket], nextTicket := l.nextTicket + 1 } []
  | served {ticket : Ticket} {work : Work α} (stands : t.progress = .inLine ticket work)
      (opened : l.closed = false) (given : ticket ∈ l.served) :
      Takes now cancelled l p t
        (p.update { t with holds := true, progress := .running (.working work) })
        (l.takeUp ticket) []
  | refused (stands : (∃ work, t.progress = .fresh work) ∧ p.usesSlots = true ∨
        ∃ ticket work, t.progress = .inLine ticket work) (closed : l.closed = true) :
      Takes now cancelled l p t (p.fail l .schedulerClosed).1 (p.fail l .schedulerClosed).2 []
  | goesOn {work next : Running α} {events : List Event} (stands : t.progress = .running work)
      (step : work.step? now cancelled = some (.goesOn events next)) :
      Takes now cancelled l p t (p.update { t with progress := .running next }) l events
  | ends {work : Running α} {answer : α} (stands : t.progress = .running work)
      (step : work.step? now cancelled = some (.ends (.ok answer))) :
      Takes now cancelled l p t (p.finish t l answer).1 (p.finish t l answer).2 []
  | breaks {work : Running α} {problem : Problem} (stands : t.progress = .running work)
      (step : work.step? now cancelled = some (.ends (.error problem))) :
      Takes now cancelled l p t (p.fail l problem).1 (p.fail l problem).2 []

/-- A step of a strand is one of those. -/
theorem step?_takes {now : Nat} {cancelled : Bool} {l l' : Limiter} {id : Nat}
    {events : List Event} (h : p.step? now cancelled l id = some (p', l', events)) :
    ∃ t, p.strand? id = some t ∧ Takes now cancelled l p t p' l' events := by
  simp only [step?, Option.bind_eq_some_iff] at h
  obtain ⟨t, hfind, h⟩ := h
  refine ⟨t, hfind, ?_⟩
  cases hprogress : t.progress with
  | fresh work =>
    simp only [hprogress] at h
    cases hslots : p.usesSlots with
    | false =>
      obtain ⟨rfl, rfl, rfl⟩ : _ ∧ _ ∧ _ := by simpa [hslots] using h
      exact .begins hprogress hslots
    | true =>
      cases hclosed : l.closed with
      | true =>
        obtain ⟨rfl, rfl, rfl⟩ : _ ∧ _ ∧ _ := by
          simpa [hslots, Limiter.join, hclosed] using h
        exact .refused (.inl ⟨⟨work, hprogress⟩, hslots⟩) hclosed
      | false =>
        by_cases hfree : 0 < l.free
        · have hjoin : l.join = (.slot, l.nextTicket, { l with free := l.free - 1 }) := by
            simp [Limiter.join, hclosed, hfree]
          obtain ⟨rfl, rfl, rfl⟩ : _ ∧ _ ∧ _ := by simpa [hslots, hjoin] using h
          exact .slot hprogress hslots hclosed hfree
        · have hjoin : l.join = (.waiting, l.nextTicket,
              { l with line := l.line ++ [l.nextTicket], nextTicket := l.nextTicket + 1 }) := by
            simp [Limiter.join, hclosed, hfree]
          obtain ⟨rfl, rfl, rfl⟩ : _ ∧ _ ∧ _ := by simpa [hslots, hjoin] using h
          exact .queues hprogress hslots hclosed (Nat.eq_zero_of_not_pos hfree)
  | inLine ticket work =>
    simp only [hprogress] at h
    cases hclosed : l.closed with
    | true =>
      obtain ⟨rfl, rfl, rfl⟩ : _ ∧ _ ∧ _ := by simpa [Limiter.attempt, hclosed] using h
      exact .refused (.inr ⟨ticket, work, hprogress⟩) hclosed
    | false =>
      by_cases hserved : ticket ∈ l.served
      · obtain ⟨rfl, rfl, rfl⟩ : _ ∧ _ ∧ _ := by
          simpa [Limiter.attempt, hclosed, hserved] using h
        exact .served hprogress hclosed hserved
      · simp [Limiter.attempt, hclosed, hserved] at h
  | running work =>
    simp only [hprogress, Option.map_eq_some_iff] at h
    obtain ⟨step, hstep, h⟩ := h
    split at h
    · obtain ⟨rfl, rfl, rfl⟩ : _ ∧ _ ∧ _ := by simpa using h
      exact .goesOn hprogress hstep
    · obtain ⟨rfl, rfl, rfl⟩ : _ ∧ _ ∧ _ := by simpa using h
      exact .ends hprogress hstep
    · obtain ⟨rfl, rfl, rfl⟩ : _ ∧ _ ∧ _ := by simpa using h
      exact .breaks hprogress hstep

/-- A strand opens or closes no slots. -/
theorem closed_step? {now : Nat} {cancelled : Bool} {l l' : Limiter} {id : Nat}
    {events : List Event} (h : p.step? now cancelled l id = some (p', l', events)) :
    l'.closed = l.closed := by
  obtain ⟨t, -, htakes⟩ := step?_takes h
  cases htakes with
  | begins | slot | queues | served | goesOn => rfl
  | ends => exact closed_finish _ _ _ _
  | refused | breaks => exact closed_fail _ _ _

/-! ## Where the pieces of a pool head -/

/-- Strands are numbered as they began. -/
structure Numbered (p : Pool α) : Prop where
  ids : (p.strands.map (·.id)).Nodup
  below : ∀ t ∈ p.strands, t.id < p.nextId

/-- What there is to say of the strands, and of the pieces that have not begun. -/
def ahead {β : Type} (f : Progress α → β) (p : Pool α) : List β :=
  p.strands.map (f ·.progress) ++ p.queue.map fun work => f (.fresh work)

/-- The answers to come: those that the strands head for, and the pieces that have not begun. -/
def toCome (stopped : Bool) (p : Pool α) : List (Except Problem α) :=
  p.ahead (·.heads p.usesSlots stopped)

/-- The pool comes to these answers, unless a problem ends it. -/
structure Heads (stopped : Bool) (ends : List (Except Problem α)) (p : Pool α) : Prop
    extends Numbered p where
  answers : p.problem = none → (p.answers.map Except.ok ++ p.toCome stopped).Perm ends

/-- The strands that begin when there is room. -/
def newcomers (p : Pool α) : List (Strand α) :=
  ((p.queue.take (p.room - p.strands.length)).zipIdx p.nextId).map fun (work, id) =>
    { id, progress := .fresh work }

theorem map_newcomers {β : Type} (f : Progress α → β) (p : Pool α) :
    p.newcomers.map (f ·.progress)
      = (p.queue.take (p.room - p.strands.length)).map fun work => f (.fresh work) := by
  rw [newcomers, List.map_map]
  generalize p.queue.take (p.room - p.strands.length) = queue
  have h := List.zipIdx_map_fst p.nextId queue
  conv => rhs; rw [← h]
  rw [List.map_map]
  rfl

/-- Pieces that begin take their place among the strands. -/
theorem ahead_refill {β : Type} (f : Progress α → β) (p : Pool α) :
    p.refill.ahead f = p.ahead f := by
  have hnew : p.refill.strands = p.strands ++ p.newcomers := rfl
  have hqueue : p.refill.queue = p.queue.drop (p.room - p.strands.length) := rfl
  rw [ahead, ahead, hnew, hqueue, List.map_append, map_newcomers, List.append_assoc,
    ← List.map_append, List.take_append_drop]

theorem ids_newcomers (p : Pool α) :
    p.newcomers.map (·.id) = List.range' p.nextId p.newcomers.length := by
  rw [newcomers, List.map_map, List.length_map, List.length_zipIdx,
    ← List.zipIdx_map_snd p.nextId]
  rfl

theorem Numbered.refill (hp : p.Numbered) : p.refill.Numbered where
  ids := by
    have hnew : p.refill.strands = p.strands ++ p.newcomers := rfl
    rw [hnew, List.map_append, List.nodup_append, ids_newcomers]
    refine ⟨hp.ids, List.nodup_range', ?_⟩
    intro i hi j hj hij
    obtain ⟨t, ht, rfl⟩ := List.mem_map.mp hi
    have hlt := hp.below t ht
    rw [List.mem_range'_1] at hj
    omega
  below t ht := by
    have hnext : p.refill.nextId = p.nextId + p.newcomers.length := rfl
    rw [hnext]
    rcases List.mem_append.mp ht with ht | ht
    · exact Nat.lt_add_right _ (hp.below t ht)
    · have hid : t.id ∈ p.newcomers.map (·.id) := List.mem_map.mpr ⟨t, ht, rfl⟩
      rw [ids_newcomers, List.mem_range'_1] at hid
      omega

/-- Beginning pieces changes no answer. -/
theorem Heads.refill (hp : Heads stopped ends p) : Heads stopped ends p.refill where
  toNumbered := hp.toNumbered.refill
  answers hnone := by
    have hcome : p.refill.toCome stopped = p.toCome stopped := p.ahead_refill _
    rw [hcome]
    exact hp.answers hnone

theorem heads_start (stopped usesSlots : Bool) (room : Nat) (pieces : List (Work α)) :
    Heads stopped (pieces.map fun work => (Progress.fresh work).heads usesSlots stopped)
      (start usesSlots room pieces) :=
  Heads.refill ⟨⟨.nil, by simp⟩, fun _ => by simp [toCome, ahead]⟩

/-- The pool without a strand. -/
def without (p : Pool α) (t : Strand α) : Pool α :=
  { p with strands := p.strands.filter (·.id != t.id) }

/-- A strand stands beside the others. -/
theorem Numbered.perm_strands (hp : p.Numbered) (ht : t ∈ p.strands) :
    p.strands.Perm (t :: (p.without t).strands) :=
  perm_cons_filter hp.ids ht

/-- A strand that goes on takes its own place. -/
theorem Numbered.perm_strands_update (hp : p.Numbered) (ht : t ∈ p.strands) {next : Strand α}
    (hid : next.id = t.id) : (p.update next).strands.Perm (next :: (p.without t).strands) := by
  have hperm := perm_cons_replace hp.ids ht next
  rw [← hid] at hperm
  rw [without, ← hid]
  exact hperm

theorem Numbered.perm_ahead {β : Type} (hp : p.Numbered) (ht : t ∈ p.strands)
    (f : Progress α → β) : (p.ahead f).Perm (f t.progress :: (p.without t).ahead f) :=
  ((hp.perm_strands ht).map (f ·.progress)).append_right _

theorem Numbered.perm_ahead_update {β : Type} (hp : p.Numbered) (ht : t ∈ p.strands)
    {next : Strand α} (hid : next.id = t.id) (f : Progress α → β) :
    ((p.update next).ahead f).Perm (f next.progress :: (p.without t).ahead f) :=
  ((hp.perm_strands_update ht hid).map (f ·.progress)).append_right _

theorem mem_of_strand? {id : Nat} (h : p.strand? id = some t) : t ∈ p.strands :=
  List.mem_of_find?_eq_some h

/-- A strand is known by its number. -/
theorem Numbered.strand?_eq (hp : p.Numbered) (ht : t ∈ p.strands) : p.strand? t.id = some t := by
  cases hfind : p.strand? t.id with
  | none => exact absurd (beq_self_eq_true t.id) (List.find?_eq_none.mp hfind t ht)
  | some u =>
    have hid : u.id = t.id := by simpa using List.find?_some hfind
    rw [List.inj_on_of_nodup_map hp.ids (mem_of_strand? hfind) ht hid]

/-- A strand goes on. -/
theorem strand?_update {next : Strand α} (h : p.strand? t.id = some t) (hid : next.id = t.id) :
    (p.update next).strand? next.id = some next := by
  have hsame : (fun u : Strand α => u.id == next.id) ∘
      (fun u => if u.id = next.id then next else u) = fun u => u.id == t.id := by
    funext u
    by_cases hu : u.id = t.id <;> simp [hu, hid]
  rw [strand?] at h ⊢
  rw [Pool.update, List.find?_map, hsame, h]
  simp [hid]

/-- How a strand came to its end makes no difference. -/
theorem finish_update {next : Strand α} (hid : next.id = t.id) (l : Limiter) (answer : α) :
    ((p.update next).finish next l answer).1 = (p.finish t l answer).1 := by
  have hothers : (p.strands.map fun u => if u.id = next.id then next else u).filter
      (·.id != next.id) = p.strands.filter (·.id != t.id) := by
    rw [← hid]
    induction p.strands with
    | nil => rfl
    | cons u strands ih =>
      by_cases hu : u.id = next.id
      · simpa [hu] using ih
      · simpa [hu] using ih
  rw [finish, finish, Pool.update]
  simp only [hothers]

theorem Numbered.update (hp : p.Numbered) (ht : t ∈ p.strands) {next : Strand α}
    (hid : next.id = t.id) : (p.update next).Numbered where
  ids := by
    have hsame : (p.update next).strands.map (·.id) = p.strands.map (·.id) := by
      rw [Pool.update, List.map_map]
      refine List.map_congr_left fun s _ => ?_
      rw [Function.comp]
      split
      · rename_i h
        rw [h]
      · rfl
    rw [hsame]
    exact hp.ids
  below s hs := by
    obtain ⟨s, hmem, rfl⟩ := List.mem_map.mp hs
    split
    · rw [hid]
      exact hp.below t ht
    · exact hp.below s hmem

theorem Numbered.finish (hp : p.Numbered) (t : Strand α) (l : Limiter) (answer : α) :
    (p.finish t l answer).1.Numbered := by
  refine Numbered.refill ⟨?_, fun s hs => hp.below s (List.mem_filter.mp hs).1⟩
  exact hp.ids.sublist ((List.filter_sublist).map _)

/-- A strand that heads for the same answer as before changes none. -/
theorem Heads.update (hp : Heads stopped ends p) (ht : t ∈ p.strands) {next : Strand α}
    (hid : next.id = t.id) (hheads : next.progress.heads p.usesSlots stopped
      = t.progress.heads p.usesSlots stopped) : Heads stopped ends (p.update next) where
  toNumbered := hp.toNumbered.update ht hid
  answers hnone := by
    have hafter := hp.perm_ahead_update ht hid (·.heads p.usesSlots stopped)
    rw [hheads] at hafter
    have hsame := hafter.trans (hp.perm_ahead ht (·.heads p.usesSlots stopped)).symm
    exact (hsame.append_left (p.answers.map Except.ok)).trans (hp.answers hnone)

theorem Heads.fail (p : Pool α) (l : Limiter) (problem : Problem) :
    Heads stopped ends (p.fail l problem).1 where
  ids := .nil
  below _ ht := by cases ht
  answers hnone := by cases hnone

/-- A strand ends with the answer it headed for. -/
theorem Heads.finish (hp : Heads stopped ends p) (ht : t ∈ p.strands) (l : Limiter) {answer : α}
    (hheads : t.progress.heads p.usesSlots stopped = .ok answer) :
    Heads stopped ends (p.finish t l answer).1 where
  toNumbered := hp.toNumbered.finish t l answer
  answers hnone := by
    have hcome := hp.perm_ahead ht (·.heads p.usesSlots stopped)
    rw [hheads] at hcome
    have hleft : (p.finish t l answer).1.toCome stopped
        = (p.without t).ahead (·.heads p.usesSlots stopped) :=
      ahead_refill _ _
    have hanswers : (p.finish t l answer).1.answers = p.answers ++ [answer] := rfl
    rw [hleft, hanswers, List.map_append, List.append_assoc]
    exact (hcome.symm.append_left (p.answers.map Except.ok)).trans (hp.answers hnone)

/-! ## Steps of a pool -/

/-- What a step of a strand does to its pool: the strand goes on and has fewer steps left, ends with
the answer that it headed for, or breaks the pool off. It does the last only if it headed there,
where slots are given out exactly as long as nobody is told to stop. -/
inductive Advance (stopped closed : Bool) (p : Pool α) : Pool α → Prop
  | moves {t next : Strand α} (mem : t ∈ p.strands) (id : next.id = t.id)
      (heads : next.progress.heads p.usesSlots stopped = t.progress.heads p.usesSlots stopped)
      (steps : next.progress.steps < t.progress.steps) :
      Advance stopped closed p (p.update next)
  | ends {t : Strand α} {l : Limiter} {answer : α} (mem : t ∈ p.strands)
      (heads : t.progress.heads p.usesSlots stopped = .ok answer) :
      Advance stopped closed p (p.finish t l answer).1
  | breaks {t : Strand α} {l : Limiter} {problem : Problem} (mem : t ∈ p.strands)
      (heads : closed = stopped → t.progress.heads p.usesSlots stopped = .error problem) :
      Advance stopped closed p (p.fail l problem).1

/-- A step of a strand is one of those of `Advance`. -/
theorem step?_advance {now id : Nat} {l l' : Limiter} {events : List Event}
    (hl : stopped = true → l.closed = true)
    (h : p.step? now stopped l id = some (p', l', events)) : Advance stopped l.closed p p' := by
  obtain ⟨t, hfind, htakes⟩ := step?_takes h
  have ht := mem_of_strand? hfind
  have hgoes : l.closed = false → stopped = false := by
    cases stopped <;> simp_all
  cases htakes with
  | begins hstands hslots =>
    refine .moves ht rfl ?_ (by simp [hstands, Progress.steps, Running.steps])
    simp [hstands, Progress.heads, Running.heads, hslots]
  | slot hstands hslots hopen =>
    refine .moves ht rfl ?_ (by simp [hstands, Progress.steps, Running.steps])
    simp [hstands, Progress.heads, Running.heads, hgoes hopen]
  | queues hstands hslots hopen =>
    refine .moves ht rfl ?_ (by simp [hstands, Progress.steps])
    simp [hstands, Progress.heads, Work.heads, hgoes hopen]
  | served hstands hopen =>
    refine .moves ht rfl ?_ (by simp [hstands, Progress.steps, Running.steps])
    simp [hstands, Progress.heads, Running.heads, Work.heads, hgoes hopen]
  | refused hstands hclosed =>
    refine .breaks ht fun hsame => ?_
    have hstopped : stopped = true := hsame ▸ hclosed
    rcases hstands with ⟨⟨work, hstands⟩, hslots⟩ | ⟨ticket, work, hstands⟩
    · simp [hstands, Progress.heads, hslots, hstopped]
    · simp [hstands, Progress.heads, hstopped]
  | goesOn hstands hstep =>
    refine .moves ht rfl ?_ ?_
    · rw [hstands]
      exact Running.heads_goesOn hstep
    · rw [hstands]
      exact Running.steps_goesOn hstep
  | ends hstands hstep =>
    exact .ends ht (by rw [hstands]; exact (Running.heads_ends hstep).symm)
  | breaks hstands hstep =>
    exact .breaks ht fun _ => by rw [hstands]; exact (Running.heads_ends hstep).symm

/-- Whatever strand takes a step, the pool comes to the same answers. -/
theorem Heads.advance {closed : Bool} (hp : Heads stopped ends p)
    (h : Advance stopped closed p p') : Heads stopped ends p' := by
  cases h with
  | moves ht hid hheads => exact hp.update ht hid hheads
  | ends ht hheads => exact hp.finish ht _ hheads
  | breaks => exact .fail _ _ _

theorem Numbered.advance {closed : Bool} (hp : p.Numbered) (h : Advance stopped closed p p') :
    p'.Numbered :=
  (Heads.advance ⟨hp, fun _ => .refl _⟩ h).toNumbered

/-! ## Pools in order -/

/-- Strands are numbered as they began, and where there is room some are under way as long as
pieces are left. -/
structure Orderly (size : Nat) (p : Pool α) : Prop extends Numbered p where
  room : p.room = size
  busy : p.strands = [] → p.queue = [] ∨ p.room = 0

theorem busy_refill (h : p.refill.strands = []) : p.refill.queue = [] ∨ p.room = 0 := by
  have hnew : p.refill.strands = p.strands ++ p.newcomers := rfl
  have hqueue : p.refill.queue = p.queue.drop (p.room - p.strands.length) := rfl
  rw [hnew, List.append_eq_nil_iff] at h
  obtain ⟨hstrands, hnone⟩ := h
  rw [hstrands, List.length_nil, Nat.sub_zero] at hqueue
  have htake : p.queue.take p.room = [] := by
    simpa [newcomers, hstrands] using hnone
  rcases List.take_eq_nil_iff.mp htake with hroom | hqueued
  · exact .inr hroom
  · exact .inl (by rw [hqueue, hqueued, List.drop_nil])

theorem orderly_start (usesSlots : Bool) (room : Nat) (pieces : List (Work α)) :
    Orderly room (start usesSlots room pieces) where
  toNumbered := (heads_start false usesSlots room pieces).toNumbered
  room := rfl
  busy := busy_refill

namespace Orderly

variable {size : Nat} (hp : Orderly size p)

include hp

theorem update (ht : t ∈ p.strands) {next : Strand α} (hid : next.id = t.id) :
    Orderly size (p.update next) where
  toNumbered := hp.toNumbered.update ht hid
  room := hp.room
  busy hnone := hp.busy (List.map_eq_nil_iff.mp hnone)

theorem finish (t : Strand α) (l : Limiter) (answer : α) :
    Orderly size (p.finish t l answer).1 where
  toNumbered := hp.toNumbered.finish t l answer
  room := hp.room
  busy := busy_refill

theorem fail (l : Limiter) (problem : Problem) : Orderly size (p.fail l problem).1 where
  ids := .nil
  below _ ht := by cases ht
  room := hp.room
  busy _ := .inl rfl

theorem advance {closed : Bool} (h : Advance stopped closed p p') : Orderly size p' := by
  cases h with
  | moves ht hid => exact hp.update ht hid
  | ends => exact hp.finish _ _ _
  | breaks => exact hp.fail _ _

/-- Whatever strand takes a step, the pool stays in order. -/
theorem step? {now id : Nat} {cancelled : Bool} {l l' : Limiter} {events : List Event}
    (h : p.step? now cancelled l id = some (p', l', events)) : Orderly size p' := by
  obtain ⟨t, hfind, htakes⟩ := step?_takes h
  have ht := mem_of_strand? hfind
  cases htakes with
  | begins | slot | queues | served | goesOn => exact hp.update ht rfl
  | ends => exact hp.finish t l _
  | refused | breaks => exact hp.fail l _

end Orderly

/-- A pool that ends well has come to its answers. -/
theorem Heads.result (hp : Heads stopped ends p) {answers : List α}
    (h : p.result? = some (.ok answers)) : (answers.map Except.ok).Perm ends := by
  unfold result? at h
  split at h
  · cases h
  · rename_i hnone
    split at h
    · rename_i hempty
      obtain rfl : p.answers = answers := by simpa using h
      simp only [Bool.and_eq_true, List.isEmpty_iff] at hempty
      have hall := hp.answers hnone
      rw [toCome, ahead, hempty.1, hempty.2] at hall
      simpa using hall
    · cases h

/-! ## Pools that are told to stop -/

/-- The pool, told to stop, comes to its end nonetheless, and to this answer among others. -/
structure ComesTo (p : Pool α) (answer : α) : Prop where
  unbroken : p.problem = none
  all : ∀ a ∈ p.toCome true, ∃ b, a = .ok b
  mem : .ok answer ∈ p.answers.map Except.ok ++ p.toCome true

/-- What a pool comes to after a step, it came to before. -/
theorem ComesTo.of_advance {closed : Bool} {answer : α} (hp : p.Numbered)
    (h : Advance true closed p p') (hc : p'.ComesTo answer) : p.ComesTo answer := by
  have hperm := (Heads.advance ⟨hp, fun _ => .refl _⟩ h).answers hc.unbroken
  refine ⟨?_, fun a ha => ?_, hperm.mem_iff.mp hc.mem⟩
  · cases h with
    | moves | ends => exact hc.unbroken
    | breaks => exact absurd hc.unbroken nofun
  · rcases List.mem_append.mp (hperm.mem_iff.mpr (List.mem_append_right _ ha)) with ha | ha
    · obtain ⟨b, -, rfl⟩ := List.mem_map.mp ha
      exact ⟨b, rfl⟩
    · exact hc.all a ha

/-- What a pool comes to, it still comes to after a strand has ended. The answers to come are then
fewer by one. -/
theorem ComesTo.finish {answer a : α} (hp : p.Numbered) (hc : p.ComesTo answer)
    (ht : t ∈ p.strands) (hheads : t.progress.heads p.usesSlots true = .ok a) (l : Limiter) :
    (p.finish t l a).1.ComesTo answer ∧
      ((p.finish t l a).1.toCome true).length < (p.toCome true).length := by
  have hperm := (Heads.finish ⟨hp, fun _ => .refl _⟩ ht l hheads).answers hc.unbroken
  refine ⟨⟨hc.unbroken, fun b hb => ?_, hperm.mem_iff.mpr hc.mem⟩, ?_⟩
  · rcases List.mem_append.mp (hperm.mem_iff.mp (List.mem_append_right _ hb)) with hb | hb
    · obtain ⟨b, -, rfl⟩ := List.mem_map.mp hb
      exact ⟨b, rfl⟩
    · exact hc.all b hb
  · have hlength := hperm.length_eq
    have hanswers : (p.finish t l a).1.answers = p.answers ++ [a] := rfl
    simp only [List.length_append, List.length_map, hanswers, List.length_singleton] at hlength
    omega

/-- A pool that has ended came to its answers. -/
theorem ComesTo.of_result {answers : List α} (h : p.result? = some (.ok answers)) {answer : α}
    (hmem : answer ∈ answers) : p.ComesTo answer := by
  unfold result? at h
  split at h
  · cases h
  · rename_i hnone
    split at h
    · rename_i hempty
      obtain rfl : p.answers = answers := by simpa using h
      simp only [Bool.and_eq_true, List.isEmpty_iff] at hempty
      have hcome : p.toCome true = [] := by simp [toCome, ahead, hempty.1, hempty.2]
      exact ⟨hnone, by simp [hcome], by simpa [hcome] using hmem⟩
    · cases h

/-! ## Pools that nobody stops -/

/-- The pool answers for the pieces, unless a problem ends it. -/
def Sound (pieces : List (Work α)) (p : Pool α) : Prop := Heads false (pieces.map Work.answer) p

theorem sound_start (usesSlots : Bool) (room : Nat) (pieces : List (Work α)) :
    Sound pieces (start usesSlots room pieces) := by
  have hstart := heads_start false usesSlots room pieces
  simp only [Progress.heads, Bool.and_false, Bool.false_eq_true, if_false] at hstart
  exact hstart

/-- Told to stop or not, a strand that ends with an answer ends with that of its piece. -/
theorem Sound.step (hp : Sound pieces p) {now : Nat} {cancelled : Bool} {l l' : Limiter} {id : Nat}
    {events : List Event} (h : p.step? now cancelled l id = some (p', l', events)) :
    Sound pieces p' := by
  obtain ⟨t, hfind, htakes⟩ := step?_takes h
  have ht := mem_of_strand? hfind
  cases htakes with
  | begins hstands | slot hstands | queues hstands | served hstands =>
    exact Heads.update hp ht rfl
      (by simp [hstands, Progress.heads, Running.heads, Work.heads])
  | goesOn hstands hstep =>
    exact Heads.update hp ht rfl
      (by simp [hstands, Progress.heads, Running.heads_false, Running.answer_of_goesOn hstep])
  | ends hstands hstep =>
    refine Heads.finish hp ht _ ?_
    rw [hstands, Progress.heads, Running.heads_false]
    exact ((Running.answer_or_cancelled hstep).resolve_right nofun).symm
  | refused | breaks => exact Heads.fail _ _ _

/-- A strand heads for the answer of a piece. -/
theorem Sound.exists_piece (hp : Sound pieces p) (hnone : p.problem = none) (ht : t ∈ p.strands) :
    ∃ work ∈ pieces, work.answer = t.progress.heads p.usesSlots false := by
  have hcome : t.progress.heads p.usesSlots false ∈ p.answers.map Except.ok ++ p.toCome false :=
    List.mem_append_right _ (List.mem_append_left _ (List.mem_map.mpr ⟨t, ht, rfl⟩))
  exact List.mem_map.mp ((Heads.answers hp hnone).mem_iff.mp hcome)

/-- No problem turns up while slots are given out and every piece comes to an answer. -/
theorem Sound.problem_step? (hp : Sound pieces p) (hnone : p.problem = none)
    (hpieces : ∀ work ∈ pieces, ∃ a, work.answer = .ok a) {now : Nat} {l l' : Limiter} {id : Nat}
    {events : List Event} (hl : l.closed = false)
    (h : p.step? now false l id = some (p', l', events)) : p'.problem = none := by
  cases step?_advance (by simp) h with
  | moves | ends => exact hnone
  | breaks ht hheads =>
    obtain ⟨work, hwork, hanswer⟩ := hp.exists_piece hnone ht
    obtain ⟨a, ha⟩ := hpieces work hwork
    cases ha.symm.trans (hanswer.trans (hheads hl))

theorem Sound.result (hp : Sound pieces p) {answers : List α}
    (h : p.result? = some (.ok answers)) :
    (answers.map Except.ok).Perm (pieces.map Work.answer) :=
  Heads.result hp h

end Pool

end CellRules
