/-
CellRules.Proofs.Run.Account — slots that change hands are not lost.

Whoever deals with a limiter takes a free slot, joins the line, takes up a slot that was given to it,
leaves the line, or gives a slot back (`Trade`). `Accounts limit l tickets held` says how a limiter
stands to all those who deal with it, whoever they are: who waits has a ticket of its own, slots are
given to those who wait, nobody waits while a slot is free, and the slots that are free, given and
taken up are as many as there are. It holds whether slots are still given out or not.

* `Trade.accounts` — a trade keeps the account, whatever the others hold.
* `Limiter.InOrder` — slots are given out in the order in which those who wait came; `Trade.follows`
  says so of a trade, and that nobody returns to the line.
* `Pool.Fair.step` — the same for a step of a strand, which may end all strands of its pool.
-/
import CellRules.Proofs.Run.Ending

namespace CellRules

variable {α : Type}

/-- The ticket of a strand in line. -/
def Strand.tickets (t : Strand α) : List Ticket :=
  match t.progress with
  | .inLine ticket _ => [ticket]
  | _ => []

/-- The slots that a strand holds. -/
def Strand.slots (t : Strand α) : Nat := if t.holds then 1 else 0

namespace Limiter

variable {l l' : Limiter} {ticket : Ticket}

/-- Whoever has a ticket, waiting or served. -/
def waiters (l : Limiter) : List Ticket := l.line ++ l.served

/-- A slot that is given back goes to one who waits, or is free. -/
theorem waiters_release (l : Limiter) : l.release.waiters.Perm l.waiters := by
  unfold release waiters
  split
  · rename_i ticket line hline
    rw [hline, ← List.append_assoc]
    exact List.perm_append_singleton ticket (line ++ l.served)
  · exact .refl _

theorem slots_release (l : Limiter) :
    l.release.free + l.release.served.length = l.free + l.served.length + 1 := by
  unfold release
  split
  · simp only [List.length_append, List.length_singleton]
    omega
  · simp only
    omega

theorem nextTicket_release (l : Limiter) : l.release.nextTicket = l.nextTicket := by
  unfold release
  split <;> rfl

theorem queue_release (h : l.line ≠ [] → l.free = 0) :
    l.release.line ≠ [] → l.release.free = 0 := by
  unfold release
  split
  · rename_i ticket line hline
    exact fun _ => h (by simp [hline])
  · rename_i hline
    exact fun hne => absurd hline hne

/-- Who takes up a slot that was given leaves the waiters. -/
theorem waiters_takeUp (hnodup : l.waiters.Nodup) (h : ticket ∈ l.served) :
    l.waiters.Perm (ticket :: (l.takeUp ticket).waiters) ∧
      l.served.length = (l.takeUp ticket).served.length + 1 := by
  have hserved : l.served.Perm (ticket :: (l.takeUp ticket).served) :=
    perm_cons_filter (f := id) (by simpa using (List.nodup_append.mp hnodup).2.1) h
  refine ⟨?_, by simpa using hserved.length_eq⟩
  refine (hserved.append_left l.line).trans ?_
  exact List.perm_middle

/-! ## Dealing with a limiter -/

/-- What one who deals with a limiter may do, by the tickets and slots that it has before and after. -/
inductive Trade (l : Limiter) : List Ticket → Nat → Limiter → List Ticket → Nat → Prop
  | rests (tickets : List Ticket) (slots : Nat) : Trade l tickets slots l tickets slots
  | takes (opened : l.closed = false) (free : 0 < l.free) :
      Trade l [] 0 { l with free := l.free - 1 } [] 1
  | queues (opened : l.closed = false) (full : l.free = 0) :
      Trade l [] 0 { l with line := l.line ++ [l.nextTicket], nextTicket := l.nextTicket + 1 }
        [l.nextTicket] 0
  | takesUp {ticket : Ticket} (given : ticket ∈ l.served) :
      Trade l [ticket] 0 (l.takeUp ticket) [] 1
  | leaves (ticket : Ticket) : Trade l [ticket] 0 (l.leave ticket) [] 0
  | gives : Trade l [] 1 l.release [] 0

/-- Who asks for a slot and finds one takes it. -/
theorem trade_join_slot (h : l.join = (.slot, ticket, l')) : l.Trade [] 0 l' [] 1 := by
  unfold join at h
  split at h
  · cases h
  · split at h
    · rename_i hopen hfree
      cases h
      exact .takes (by simpa using hopen) hfree
    · cases h

/-- Who finds none joins the line. -/
theorem trade_join_waiting (h : l.join = (.waiting, ticket, l')) : l.Trade [] 0 l' [ticket] 0 := by
  unfold join at h
  split at h
  · cases h
  · split at h
    · cases h
    · rename_i hopen hfull
      cases h
      exact .queues (by simpa using hopen) (Nat.eq_zero_of_not_pos hfull)

/-- Who was given a slot may take it up. -/
theorem trade_attempt (h : l.attempt ticket = .slot) :
    l.Trade [ticket] 0 (l.takeUp ticket) [] 1 := by
  unfold attempt at h
  split at h
  · cases h
  · split at h
    · exact .takesUp ‹_›
    · cases h

/-- How a limiter stands to those who deal with it: the tickets of those who wait, whether or not
they were given a slot, and the number of slots that are taken up. -/
structure Accounts (limit : Nat) (l : Limiter) (tickets : List Ticket) (held : Nat) : Prop where
  nodup : tickets.Nodup
  below : ∀ ticket ∈ tickets, ticket < l.nextTicket
  distinct : l.waiters.Nodup
  known : ∀ ticket ∈ l.waiters, ticket ∈ tickets
  /-- As long as slots are given out, whoever has a ticket is in line or was given a slot. -/
  waiting : l.closed = false → ∀ ticket ∈ tickets, ticket ∈ l.waiters
  /-- Afterwards nobody is in line. -/
  emptied : l.closed = true → l.line = []
  /-- Each slot is free, given or taken up. -/
  account : l.free + l.served.length + held = limit
  /-- Nobody waits while a slot is free. -/
  queue : l.line ≠ [] → l.free = 0

namespace Accounts

variable {limit held : Nat} {tickets tickets' : List Ticket}

theorem ofLimit (limit : Nat) : Accounts limit (.ofLimit limit) [] 0 where
  nodup := .nil
  below _ h := by cases h
  distinct := .nil
  known _ h := by cases h
  waiting _ _ h := by cases h
  emptied h := by cases h
  account := rfl
  queue h := absurd rfl h

theorem perm (h : Accounts limit l tickets held) (hperm : tickets.Perm tickets') :
    Accounts limit l tickets' held where
  nodup := hperm.nodup_iff.mp h.nodup
  below ticket hticket := h.below ticket (hperm.mem_iff.mpr hticket)
  distinct := h.distinct
  known ticket hticket := hperm.mem_iff.mp (h.known ticket hticket)
  waiting hopen ticket hticket := h.waiting hopen ticket (hperm.mem_iff.mpr hticket)
  emptied := h.emptied
  account := h.account
  queue := h.queue

/-- Slots were given to those who have a ticket. -/
theorem countP_served (h : Accounts limit l tickets held) :
    tickets.countP (· ∈ l.served) = l.served.length := by
  rw [List.countP_eq_length_filter]
  refine List.Perm.length_eq ((List.perm_ext_iff_of_nodup (h.nodup.filter _)
    (List.nodup_append.mp h.distinct).2.1).mpr fun ticket => ?_)
  simp only [List.mem_filter, decide_eq_true_eq]
  exact ⟨And.right, fun hmem => ⟨h.known ticket (List.mem_append_right _ hmem), hmem⟩⟩

/-- A slot is given back. -/
theorem release (h : Accounts limit l tickets (held + 1)) : Accounts limit l.release tickets held where
  nodup := h.nodup
  below := l.nextTicket_release ▸ h.below
  distinct := l.waiters_release.nodup_iff.mpr h.distinct
  known ticket hticket := h.known ticket (l.waiters_release.mem_iff.mp hticket)
  waiting hopen ticket hticket :=
    l.waiters_release.mem_iff.mpr (h.waiting (l.closed_release ▸ hopen) ticket hticket)
  emptied hclosed := by
    have hline := h.emptied (l.closed_release ▸ hclosed)
    simp [Limiter.release, hline]
  account := by
    have hslots := l.slots_release
    have haccount := h.account
    omega
  queue := queue_release h.queue

/-- A slot that was given is taken up. -/
theorem takeUp (h : Accounts limit l (ticket :: tickets) held) (hgiven : ticket ∈ l.served) :
    Accounts limit (l.takeUp ticket) tickets (held + 1) := by
  obtain ⟨hperm, hlength⟩ := waiters_takeUp h.distinct hgiven
  have hdistinct := List.nodup_cons.mp (hperm.nodup_iff.mp h.distinct)
  have hnodup := List.nodup_cons.mp h.nodup
  refine ⟨hnodup.2, fun other hother => h.below other (List.mem_cons_of_mem _ hother), hdistinct.2,
    fun other hother => ?_, fun hopen other hother => ?_, h.emptied, ?_, h.queue⟩
  · have hmem := h.known other (hperm.mem_iff.mpr (List.mem_cons_of_mem _ hother))
    exact (List.mem_cons.mp hmem).resolve_left fun heq => hdistinct.1 (heq ▸ hother)
  · have hmem := hperm.mem_iff.mp (h.waiting hopen other (List.mem_cons_of_mem _ hother))
    exact (List.mem_cons.mp hmem).resolve_left fun heq => hnodup.1 (heq ▸ hother)
  · have haccount := h.account
    change l.free + (l.takeUp ticket).served.length + (held + 1) = limit
    omega

/-- Who waits leaves; a slot that was given to it goes back. -/
theorem leave (h : Accounts limit l (ticket :: tickets) held) :
    Accounts limit (l.leave ticket) tickets held := by
  unfold Limiter.leave
  split
  · rename_i hgiven
    exact (h.takeUp hgiven).release
  · rename_i hnot
    have hnodup := List.nodup_cons.mp h.nodup
    have hmem : ∀ other, other ∈ l.line.filter (· != ticket) ++ l.served ↔
        other ∈ l.waiters ∧ other ≠ ticket := by
      intro other
      simp only [waiters, List.mem_append, List.mem_filter, bne_iff_ne]
      constructor
      · rintro (⟨hline, hne⟩ | hserved)
        · exact ⟨.inl hline, hne⟩
        · exact ⟨.inr hserved, fun heq => hnot (heq ▸ hserved)⟩
      · rintro ⟨hline | hserved, hne⟩
        · exact .inl ⟨hline, hne⟩
        · exact .inr hserved
    refine ⟨hnodup.2, fun other hother => h.below other (List.mem_cons_of_mem _ hother),
      h.distinct.sublist ((List.filter_sublist).append_right _), fun other hother => ?_,
      fun hopen other hother => ?_, fun hclosed => ?_, h.account, fun hline => h.queue ?_⟩
    · obtain ⟨hwaits, hne⟩ := (hmem other).mp hother
      exact (List.mem_cons.mp (h.known other hwaits)).resolve_left hne
    · exact (hmem other).mpr ⟨h.waiting hopen other (List.mem_cons_of_mem _ hother),
        fun heq => hnodup.1 (heq ▸ hother)⟩
    · change l.line.filter (· != ticket) = []
      rw [h.emptied hclosed]
      rfl
    · rintro hnil
      exact hline (by simp [hnil])

/-- No more slots are given out. -/
theorem close (h : Accounts limit l tickets held) : Accounts limit l.close tickets held where
  nodup := h.nodup
  below := h.below
  distinct := (List.nodup_append.mp h.distinct).2.1
  known ticket hticket := h.known ticket (List.mem_append_right _ hticket)
  waiting hopen := by cases hopen
  emptied _ := rfl
  account := h.account
  queue hne := absurd rfl hne

end Accounts

/-- A trade keeps the account, whatever the others hold. -/
theorem Trade.accounts {limit slots slots' held : Nat} {mine mine' tickets : List Ticket}
    (htrade : Trade l mine slots l' mine' slots')
    (h : Accounts limit l (mine ++ tickets) (slots + held)) :
    Accounts limit l' (mine' ++ tickets) (slots' + held) := by
  cases htrade with
  | rests => exact h
  | takes hopen hfree =>
    have haccount := h.account
    refine ⟨h.nodup, h.below, h.distinct, h.known, h.waiting, h.emptied, ?_, fun hline => ?_⟩
    · dsimp only
      omega
    · have hfull := h.queue hline
      omega
  | queues hopen hfull =>
    have hfresh : l.nextTicket ∉ tickets := fun hmem => Nat.lt_irrefl _ (h.below _ hmem)
    have hjoined : (l.line ++ [l.nextTicket] ++ l.served).Perm (l.nextTicket :: l.waiters) := by
      rw [List.append_assoc]
      exact List.perm_middle
    refine ⟨List.nodup_cons.mpr ⟨hfresh, h.nodup⟩, fun ticket hticket => ?_, ?_,
      fun ticket hticket => ?_, fun _ ticket hticket => ?_, fun hclosed => ?_, h.account,
      fun _ => hfull⟩
    · rcases List.mem_cons.mp hticket with rfl | hticket
      · exact Nat.lt_succ_self _
      · exact Nat.lt_succ_of_lt (h.below ticket hticket)
    · exact hjoined.nodup_iff.mpr (List.nodup_cons.mpr ⟨fun hmem => hfresh (h.known _ hmem),
        h.distinct⟩)
    · rcases List.mem_cons.mp (hjoined.mem_iff.mp hticket) with rfl | hticket
      · exact List.mem_cons_self
      · exact List.mem_cons_of_mem _ (h.known ticket hticket)
    · refine hjoined.mem_iff.mpr ?_
      rcases List.mem_cons.mp hticket with rfl | hticket
      · exact List.mem_cons_self
      · exact List.mem_cons_of_mem _ (h.waiting hopen ticket hticket)
    · rw [hopen] at hclosed
      cases hclosed
  | takesUp hgiven =>
    rw [Nat.zero_add] at h
    rw [Nat.add_comm 1]
    exact Accounts.takeUp h hgiven
  | leaves ticket => exact Accounts.leave h
  | gives =>
    rw [Nat.add_comm 1] at h
    rw [Nat.zero_add]
    exact h.release

/-- Who waits after a trade, waited before with this ticket, or has come. -/
theorem Trade.tickets {slots slots' : Nat} {mine mine' : List Ticket}
    (htrade : Trade l mine slots l' mine' slots') (ticket : Ticket) (h : ticket ∈ mine') :
    ticket ∈ mine ∨ l.nextTicket ≤ ticket := by
  cases htrade with
  | rests => exact .inl h
  | queues => exact .inr (Nat.le_of_eq (List.mem_singleton.mp h).symm)
  | takes | takesUp | leaves | gives => cases h

/-- Who has a slot after a trade, had it, was given it, or found it free. -/
theorem Trade.taken {slots slots' : Nat} {mine mine' : List Ticket}
    (htrade : Trade l mine slots l' mine' slots') (h : slots' ≠ 0) :
    slots ≠ 0 ∨ (∃ ticket ∈ mine, ticket ∈ l.served) ∨ 0 < l.free := by
  cases htrade with
  | rests => exact .inl h
  | takes _ hfree => exact .inr (.inr hfree)
  | takesUp hgiven => exact .inr (.inl ⟨_, List.mem_singleton.mpr rfl, hgiven⟩)
  | queues | leaves | gives => exact absurd rfl h

/-! ## The order of those who wait -/

/-- Slots are given to those who wait in the order in which they came, which their tickets tell. -/
structure InOrder (l : Limiter) : Prop where
  ascending : (l.served ++ l.line).Pairwise (· < ·)
  below : ∀ ticket ∈ l.served ++ l.line, ticket < l.nextTicket

/-- What becomes of a limiter: the order is kept, and who comes to the line comes as a new one. -/
structure Follows (l l' : Limiter) : Prop where
  inOrder : l.InOrder → l'.InOrder
  limit : l'.limit = l.limit
  next : l.nextTicket ≤ l'.nextTicket
  line : ∀ ticket ∈ l'.line, ticket ∈ l.line ∨ l.nextTicket ≤ ticket

namespace Follows

variable {l'' : Limiter}

theorem refl (l : Limiter) : l.Follows l := ⟨id, rfl, Nat.le_refl _, fun _ => .inl⟩

theorem trans (h : l.Follows l') (h' : l'.Follows l'') : l.Follows l'' where
  inOrder := h'.inOrder ∘ h.inOrder
  limit := h'.limit.trans h.limit
  next := Nat.le_trans h.next h'.next
  line ticket hticket := (h'.line ticket hticket).elim (h.line ticket)
    fun hnew => .inr (Nat.le_trans h.next hnew)

/-- Those who wait stay in order, and some may leave. -/
theorem of_sublist (hsub : (l'.served ++ l'.line).Sublist (l.served ++ l.line))
    (hline : ∀ ticket ∈ l'.line, ticket ∈ l.line) (hlimit : l'.limit = l.limit)
    (hnext : l'.nextTicket = l.nextTicket) : l.Follows l' where
  inOrder h := ⟨h.ascending.sublist hsub, fun ticket hticket => by
    rw [hnext]
    exact h.below ticket (hsub.subset hticket)⟩
  limit := hlimit
  next := Nat.le_of_eq hnext.symm
  line ticket hticket := .inl (hline ticket hticket)

theorem release (l : Limiter) : l.Follows l.release := by
  unfold Limiter.release
  split
  · rename_i ticket line hline
    refine of_sublist ?_ (fun other hother => by simp [hline, hother]) rfl rfl
    simp [hline]
  · exact of_sublist (.refl _) (fun _ => id) rfl rfl

theorem takeUp (l : Limiter) (ticket : Ticket) : l.Follows (l.takeUp ticket) :=
  of_sublist ((List.filter_sublist).append_right _) (fun _ => id) rfl rfl

theorem leave (l : Limiter) (ticket : Ticket) : l.Follows (l.leave ticket) := by
  unfold Limiter.leave
  split
  · exact (takeUp l ticket).trans (release _)
  · exact of_sublist ((List.filter_sublist).append_left _)
      (fun _ hother => (List.mem_filter.mp hother).1) rfl rfl

theorem close (l : Limiter) : l.Follows l.close := by
  refine of_sublist ?_ (fun _ h => by cases h) rfl rfl
  simp [Limiter.close]

end Follows

theorem Trade.follows {slots slots' : Nat} {mine mine' : List Ticket}
    (htrade : Trade l mine slots l' mine' slots') : l.Follows l' := by
  cases htrade with
  | rests => exact .refl l
  | takes => exact .of_sublist (.refl _) (fun _ => id) rfl rfl
  | queues =>
    refine ⟨fun h => ⟨?_, fun ticket hticket => ?_⟩, rfl, Nat.le_succ _, fun ticket hticket => ?_⟩
    · rw [← List.append_assoc, List.pairwise_append]
      refine ⟨h.ascending, List.pairwise_singleton _ _, fun ticket hticket other hother => ?_⟩
      rw [List.mem_singleton.mp hother]
      exact h.below ticket hticket
    · rw [← List.append_assoc] at hticket
      rcases List.mem_append.mp hticket with hticket | hticket
      · exact Nat.lt_succ_of_lt (h.below ticket hticket)
      · rw [List.mem_singleton.mp hticket]
        exact Nat.lt_succ_self _
    · rcases List.mem_append.mp hticket with hticket | hticket
      · exact .inl hticket
      · exact .inr (Nat.le_of_eq (List.mem_singleton.mp hticket).symm)
  | takesUp => exact .takeUp l _
  | leaves => exact .leave l _
  | gives => exact .release l

end Limiter

namespace Pool

variable {p p' : Pool α} {l l' : Limiter} {t next : Strand α} {pieces : List (Work α)}
  {limit : Nat}

/-- The tickets of the strands in line. -/
def tickets (p : Pool α) : List Ticket := p.strands.flatMap Strand.tickets

/-- The slots that strands hold. -/
def held (p : Pool α) : Nat := (p.strands.map Strand.slots).sum

/-- Strands that have just begun have neither tickets nor slots. -/
theorem tickets_refill (p : Pool α) : p.refill.tickets = p.tickets := by
  have hnew : p.newcomers.flatMap Strand.tickets = [] := by
    simp [newcomers, List.flatMap_map, Strand.tickets]
  have hstrands : p.refill.strands = p.strands ++ p.newcomers := rfl
  rw [tickets, tickets, hstrands, List.flatMap_append, hnew, List.append_nil]

theorem held_refill (p : Pool α) : p.refill.held = p.held := by
  have hnew : p.newcomers.map Strand.slots = List.replicate p.newcomers.length 0 := by
    rw [List.map_eq_replicate_iff]
    intro t ht
    obtain ⟨⟨work, id⟩, -, rfl⟩ := List.mem_map.mp ht
    rfl
  have hstrands : p.refill.strands = p.strands ++ p.newcomers := rfl
  rw [held, held, hstrands, List.map_append, List.sum_append, hnew, List.sum_replicate_nat,
    Nat.mul_zero, Nat.add_zero]

/-! ## The trades of a strand -/

/-- Only strands that run hold slots, and all of them do if the pool uses slots. A problem leaves no
strand. -/
structure Fair (p : Pool α) : Prop where
  holds : ∀ t ∈ p.strands, t.holds = true → ∃ work, t.progress = .running work
  runs : ∀ t ∈ p.strands, ∀ work, t.progress = .running work → t.holds = p.usesSlots
  waits : ∀ t ∈ p.strands, ∀ ticket work, t.progress = .inLine ticket work → p.usesSlots = true
  broken : p.problem ≠ none → p.strands = []

theorem Fair.refill (hf : p.Fair) (hnone : p.problem = none) : p.refill.Fair where
  holds t ht hholds := by
    rcases List.mem_append.mp ht with ht | ht
    · exact hf.holds t ht hholds
    · obtain ⟨⟨work, id⟩, -, rfl⟩ := List.mem_map.mp ht
      cases hholds
  runs t ht work hwork := by
    rcases List.mem_append.mp ht with ht | ht
    · exact hf.runs t ht work hwork
    · obtain ⟨⟨piece, id⟩, -, rfl⟩ := List.mem_map.mp ht
      cases hwork
  waits t ht ticket work hwork := by
    rcases List.mem_append.mp ht with ht | ht
    · exact hf.waits t ht ticket work hwork
    · obtain ⟨⟨piece, id⟩, -, rfl⟩ := List.mem_map.mp ht
      cases hwork
  broken hproblem := absurd hnone hproblem

/-- A pool without strands. -/
theorem Fair.of_nil (h : p.strands = []) : p.Fair := by
  refine ⟨?_, ?_, ?_, fun _ => h⟩ <;> simp [h]

theorem fair_start (usesSlots : Bool) (room : Nat) (pieces : List (Work α)) :
    (start usesSlots room pieces).Fair :=
  Fair.refill (.of_nil rfl) rfl

theorem Fair.problem_of_mem (hf : p.Fair) (ht : t ∈ p.strands) : p.problem = none := by
  by_contra hproblem
  rw [hf.broken hproblem] at ht
  cases ht

/-- Who does not run has no slot. -/
theorem Fair.empty (hf : p.Fair) (ht : t ∈ p.strands)
    (hstands : ∀ work, t.progress ≠ .running work) : t.holds = false := by
  rw [Bool.eq_false_iff]
  intro hholds
  obtain ⟨work, hwork⟩ := hf.holds t ht hholds
  exact hstands work hwork

/-- A strand that gives up leaves the line or gives its slot back. -/
theorem Fair.trade_giveUp (hf : p.Fair) (ht : t ∈ p.strands) (l : Limiter) :
    l.Trade t.tickets t.slots (giveUp t l) [] 0 := by
  cases hprogress : t.progress with
  | inLine ticket work =>
    have hnot := hf.empty ht (by simp [hprogress])
    simpa [Strand.tickets, Strand.slots, giveUp, hprogress, hnot]
      using Limiter.Trade.leaves (l := l) ticket
  | fresh work =>
    have hnot := hf.empty ht (by simp [hprogress])
    simpa [Strand.tickets, Strand.slots, giveUp, hprogress, hnot]
      using Limiter.Trade.rests (l := l) [] 0
  | running work =>
    cases hholds : t.holds with
    | true =>
      simpa [Strand.tickets, Strand.slots, giveUp, hprogress, hholds]
        using Limiter.Trade.gives (l := l)
    | false =>
      simpa [Strand.tickets, Strand.slots, giveUp, hprogress, hholds]
        using Limiter.Trade.rests (l := l) [] 0

/-- What a step of a strand does to the slots of its pool and to the limiter, whatever others hold. -/
structure Deals (p : Pool α) (l : Limiter) (p' : Pool α) (l' : Limiter) : Prop where
  fair : p'.Fair
  usesSlots : p'.usesSlots = p.usesSlots
  follows : l.Follows l'
  accounts : ∀ {limit : Nat} {others : List Ticket} {taken : Nat},
    l.Accounts limit (p.tickets ++ others) (p.held + taken) →
      l'.Accounts limit (p'.tickets ++ others) (p'.held + taken)
  /-- Who waits, waited before with this ticket, or has come. -/
  tickets : ∀ t' ∈ p'.strands, ∀ ticket ∈ t'.tickets,
    (∃ t ∈ p.strands, t.id = t'.id ∧ ticket ∈ t.tickets) ∨ l.nextTicket ≤ ticket
  /-- Who has a slot, had it, was given it, or found it free. -/
  taken : ∀ t' ∈ p'.strands, t'.slots ≠ 0 →
    (∃ t ∈ p.strands, t.id = t'.id ∧ (t.slots ≠ 0 ∨ ∃ ticket ∈ t.tickets, ticket ∈ l.served)) ∨
      0 < l.free

/-- A strand goes on. -/
theorem Fair.update (hf : p.Fair) (hp : p.Numbered) (ht : t ∈ p.strands) (hid : next.id = t.id)
    (htrade : l.Trade t.tickets t.slots l' next.tickets next.slots)
    (hholds : next.holds = true → ∃ work, next.progress = .running work)
    (hruns : ∀ work, next.progress = .running work → next.holds = p.usesSlots)
    (hwaits : ∀ ticket work, next.progress = .inLine ticket work → p.usesSlots = true) :
    p.Deals l (p.update next) l' where
  fair := by
    refine ⟨fun u hu => ?_, fun u hu => ?_, fun u hu => ?_,
      fun hproblem => absurd (hf.problem_of_mem ht) hproblem⟩ <;>
      obtain ⟨u, hmem, rfl⟩ := List.mem_map.mp hu <;> split
    · exact hholds
    · exact hf.holds u hmem
    · exact hruns
    · exact hf.runs u hmem
    · exact hwaits
    · exact hf.waits u hmem
  usesSlots := rfl
  follows := htrade.follows
  accounts {limit others taken} haccounts := by
    have hbefore := hp.perm_strands ht
    have hafter := hp.perm_strands_update ht hid
    have htickets : p.tickets.Perm (t.tickets ++ (p.without t).tickets) :=
      hbefore.flatMap_right Strand.tickets
    have hheld : p.held = t.slots + (p.without t).held := (hbefore.map Strand.slots).sum_nat
    have htickets' : (p.update next).tickets.Perm (next.tickets ++ (p.without t).tickets) :=
      hafter.flatMap_right Strand.tickets
    have hheld' : (p.update next).held = next.slots + (p.without t).held :=
      (hafter.map Strand.slots).sum_nat
    rw [hheld, Nat.add_assoc] at haccounts
    rw [hheld', Nat.add_assoc]
    have hmine := haccounts.perm (htickets.append_right others)
    rw [List.append_assoc] at hmine
    refine (htrade.accounts hmine).perm ?_
    rw [← List.append_assoc]
    exact (htickets'.append_right others).symm
  tickets u hu ticket hticket := by
    obtain ⟨u, hmem, rfl⟩ := List.mem_map.mp hu
    split at hticket
    · rename_i hsame
      rw [if_pos hsame, hid]
      exact (htrade.tickets ticket hticket).imp_left fun hmine => ⟨t, ht, rfl, hmine⟩
    · rename_i hother
      rw [if_neg hother]
      exact .inl ⟨u, hmem, rfl, hticket⟩
  taken u hu hslots := by
    obtain ⟨u, hmem, rfl⟩ := List.mem_map.mp hu
    split at hslots
    · rename_i hsame
      rw [if_pos hsame, hid]
      rcases htrade.taken hslots with hmine | hmine | hfree
      · exact .inl ⟨t, ht, rfl, .inl hmine⟩
      · exact .inl ⟨t, ht, rfl, .inr hmine⟩
      · exact .inr hfree
    · rename_i hother
      rw [if_neg hother]
      exact .inl ⟨u, hmem, rfl, .inl hslots⟩

/-- A strand ends, and the next piece begins. -/
theorem Fair.finish (hf : p.Fair) (hp : p.Numbered) (ht : t ∈ p.strands) (hnone : t.tickets = [])
    (answer : α) : p.Deals l (p.finish t l answer).1 (p.finish t l answer).2 where
  fair := by
    have hnone := hf.problem_of_mem ht
    refine Fair.refill ⟨fun u hu => ?_, fun u hu => ?_, fun u hu => ?_, (absurd hnone ·)⟩ hnone
    · exact hf.holds u (List.mem_filter.mp hu).1
    · exact hf.runs u (List.mem_filter.mp hu).1
    · exact hf.waits u (List.mem_filter.mp hu).1
  usesSlots := rfl
  follows := by
    unfold Pool.finish
    dsimp only
    split
    · exact .release l
    · exact .refl l
  accounts {limit others taken} haccounts := by
    have hbefore := hp.perm_strands ht
    have htickets : p.tickets.Perm (t.tickets ++ (p.without t).tickets) :=
      hbefore.flatMap_right Strand.tickets
    have hheld : p.held = t.slots + (p.without t).held := (hbefore.map Strand.slots).sum_nat
    have htickets' : (p.finish t l answer).1.tickets = (p.without t).tickets := tickets_refill _
    have hheld' : (p.finish t l answer).1.held = (p.without t).held := held_refill _
    have htrade : l.Trade [] t.slots (p.finish t l answer).2 [] 0 := by
      unfold Pool.finish Strand.slots
      dsimp only
      split
      · exact .gives
      · exact .rests [] 0
    rw [htickets', hheld']
    rw [hheld, Nat.add_assoc] at haccounts
    have hmine := haccounts.perm (htickets.append_right others)
    rw [hnone] at hmine
    simpa using htrade.accounts hmine
  tickets u hu ticket hticket := by
    rcases List.mem_append.mp hu with hu | hu
    · exact .inl ⟨u, (List.mem_filter.mp hu).1, rfl, hticket⟩
    · obtain ⟨⟨work, id⟩, -, rfl⟩ := List.mem_map.mp hu
      cases hticket
  taken u hu hslots := by
    rcases List.mem_append.mp hu with hu | hu
    · exact .inl ⟨u, (List.mem_filter.mp hu).1, rfl, .inl hslots⟩
    · obtain ⟨⟨work, id⟩, -, rfl⟩ := List.mem_map.mp hu
      exact absurd rfl hslots

/-- All strands give up. -/
theorem Fair.fail (hf : p.Fair) (l : Limiter) (problem : Problem) :
    p.Deals l (p.fail l problem).1 (p.fail l problem).2 where
  fair := .of_nil rfl
  usesSlots := rfl
  follows := by
    have hall : ∀ t ∈ p.strands, ∀ l : Limiter, l.Follows (giveUp t l) :=
      fun t ht l => (hf.trade_giveUp ht l).follows
    unfold Pool.fail
    dsimp only
    generalize p.strands = strands at hall
    induction strands generalizing l with
    | nil => exact .refl l
    | cons t strands ih =>
      exact (hall t (by simp) l).trans (ih _ fun u hu => hall u (by simp [hu]))
  accounts {limit others taken} haccounts := by
    have hall : ∀ t ∈ p.strands, ∀ l : Limiter, l.Trade t.tickets t.slots (giveUp t l) [] 0 :=
      fun t ht l => hf.trade_giveUp ht l
    have hafter : (p.fail l problem).1.tickets = [] ∧ (p.fail l problem).1.held = 0 := ⟨rfl, rfl⟩
    rw [hafter.1, hafter.2, List.nil_append, Nat.zero_add]
    unfold tickets held at haccounts
    unfold Pool.fail
    dsimp only
    clear hafter hf
    generalize p.strands = strands at hall haccounts
    induction strands generalizing l with
    | nil => simpa using haccounts
    | cons t strands ih =>
      rw [List.flatMap_cons, List.map_cons, List.sum_cons, List.append_assoc, Nat.add_assoc]
        at haccounts
      have hrest := (hall t (by simp) l).accounts haccounts
      rw [List.nil_append, Nat.zero_add] at hrest
      exact ih _ (fun u hu => hall u (by simp [hu])) hrest
  tickets u hu := by cases hu
  taken u hu := by cases hu

/-- A step of a strand trades with the limiter, and may end all strands of its pool. -/
theorem Fair.step (hf : p.Fair) (hp : p.Numbered) {now id : Nat} {cancelled : Bool}
    {events : List Event} (h : p.step? now cancelled l id = some (p', l', events)) :
    p.Deals l p' l' := by
  obtain ⟨t, hfind, htakes⟩ := step?_takes h
  have ht := mem_of_strand? hfind
  cases htakes with
  | begins hstands hslots =>
    refine hf.update hp ht rfl ?_ (fun h => by cases h) (fun _ _ => hslots.symm)
      fun _ _ h => by cases h
    simpa [Strand.tickets, Strand.slots, hstands, hf.empty ht (by simp [hstands])]
      using Limiter.Trade.rests (l := l) [] 0
  | slot hstands hslots hopen hfree =>
    refine hf.update hp ht rfl ?_ (fun _ => ⟨_, rfl⟩) (fun _ _ => hslots.symm)
      fun _ _ h => by cases h
    simpa [Strand.tickets, Strand.slots, hstands, hf.empty ht (by simp [hstands])]
      using Limiter.Trade.takes hopen hfree
  | queues hstands hslots hopen hfull =>
    have hnot := hf.empty ht (by simp [hstands])
    refine hf.update hp ht rfl ?_ (fun h => ?_) (fun _ h => by cases h) fun _ _ _ => hslots
    · simpa [Strand.tickets, Strand.slots, hstands, hnot] using Limiter.Trade.queues hopen hfull
    · simp [hnot] at h
  | served hstands hopen hgiven =>
    have hslots := hf.waits t ht _ _ hstands
    refine hf.update hp ht rfl ?_ (fun _ => ⟨_, rfl⟩) (fun _ _ => hslots.symm)
      fun _ _ h => by cases h
    simpa [Strand.tickets, Strand.slots, hstands, hf.empty ht (by simp [hstands])]
      using Limiter.Trade.takesUp hgiven
  | refused => exact hf.fail l _
  | goesOn hstands =>
    refine hf.update hp ht rfl ?_ (fun _ => ⟨_, rfl⟩) (fun _ _ => hf.runs t ht _ hstands)
      fun _ _ h => by cases h
    simpa [Strand.tickets, Strand.slots, hstands] using Limiter.Trade.rests (l := l) [] t.slots
  | ends hstands => exact hf.finish hp ht (by simp [Strand.tickets, hstands]) _
  | breaks => exact hf.fail l _

end Pool

end CellRules
