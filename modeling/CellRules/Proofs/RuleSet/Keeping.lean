/-
CellRules.Proofs.RuleSet.Keeping — what every rule set keeps to, however it was made and changed.

A rule set can be built exactly if its throttle is valid, all the rules that its steps add can be
built, and these have different names (`SetDraft.build_eq_ok`). Once there, it may be copied, and
each copy takes further rules and another throttle or mode. Through all of this a rule set is SOUND:
its rules are well made and of different names, and there is room for at least one evaluation and one
row. It holds just the rules that were accepted, in the order in which they were (`Tracked.Keeps`),
and a change that is refused changes nothing.
-/
import CellRules.Proofs.Rule.Meaning

namespace CellRules

/-- A rule as drafts make it: it has a name, judges some column, and runs some validators, stage
after stage. -/
structure Rule.WellMade (r : Rule) : Prop where
  named : Text.isBlank r.name = false
  aimed : r.targets ≠ []
  checked : r.validators ≠ []
  staged : r.validators.Pairwise fun a b => a.stage.rank ≤ b.stage.rank

/-- The rule was made by steps. -/
def Rule.Made (r : Rule) : Prop := ∃ name steps, (Draft.ofSteps name steps).build = .ok r

variable {d : Draft} {r : Rule} {s s' : RuleSet} {t : Throttle}

theorem Draft.wellMade_of_build (h : d.build = .ok r) : r.WellMade := by
  obtain ⟨hname, htargets, hvalidators, rfl⟩ := build_eq_ok.mp h
  refine ⟨hname, htargets, fun hnone => hvalidators ?_, Ranked.pairwise_sort _⟩
  have hlength : d.ordered.length = d.validators.length := by simp [ordered]
  exact List.eq_nil_of_length_eq_zero (hlength.symm.trans (List.length_eq_zero_iff.mpr hnone))

theorem Rule.Made.wellMade (h : r.Made) : r.WellMade := by
  obtain ⟨name, steps, hr⟩ := h
  exact Draft.wellMade_of_build hr

/-! ## Changes -/

namespace RuleSet

/-- The names of the rules in the order of the rules. -/
def names (s : RuleSet) : List String := s.rules.map (·.name)

theorem names_append {rules : List Rule} :
    ({ s with rules := s.rules ++ rules } : RuleSet).names = s.names ++ rules.map (·.name) :=
  List.map_append

theorem isSome_rule? {name : String} : (s.rule? name).isSome = true ↔ name ∈ s.names := by
  simp [rule?, names]

/-- A rule is accepted if its name is new, and then stands at the end. -/
theorem add_eq_ok :
    s.add r = .ok s' ↔ r.name ∉ s.names ∧ s' = { s with rules := s.rules ++ [r] } := by
  unfold add
  by_cases htaken : (s.rule? r.name).isSome = true
  · rw [if_pos htaken]
    simp [isSome_rule?.mp htaken]
  · rw [if_neg htaken, ← isSome_rule?]
    simp [htaken, eq_comm]

/-- A throttle is accepted if it has room for an evaluation and a row. -/
theorem setThrottle_eq_ok :
    s.setThrottle t = .ok s' ↔ 1 ≤ t.limit ∧ 1 ≤ t.batchSize ∧ s' = { s with throttle := t } := by
  unfold setThrottle Throttle.validate
  by_cases hlimit : t.limit = 0
  · simp [hlimit, Except.map]
  by_cases hsize : t.batchSize = 0
  · simp [hlimit, hsize, Except.map]
  · simp [hlimit, hsize, Except.map, Nat.one_le_iff_ne_zero, eq_comm]

/-- The rules are well made and of different names, and the throttle leaves room. -/
structure Sound (s : RuleSet) : Prop where
  distinct : s.names.Nodup
  wellMade : ∀ r ∈ s.rules, r.WellMade
  limit : 1 ≤ s.throttle.limit
  batchSize : 1 ≤ s.throttle.batchSize

end RuleSet

/-- What may be asked of a rule set that is there. -/
inductive Change where
  | add (r : Rule)
  | throttle (t : Throttle)
  | mode (m : Mode)

namespace Change

/-- The rule set refuses the change. -/
def Refused (s : RuleSet) : Change → Prop
  | add r => r.name ∈ s.names
  | throttle t => t.limit = 0 ∨ t.batchSize = 0
  | mode _ => False

/-- The rule set after a change that it does not refuse. -/
def effect (s : RuleSet) : Change → RuleSet
  | add r => { s with rules := s.rules ++ [r] }
  | throttle t => { s with throttle := t }
  | mode m => { s with mode := m }

end Change

namespace RuleSet

variable {c : Change}

/-- An answer, and the rule set after it: the new one, or the one that there was. -/
def settle (s : RuleSet) : Except Problem RuleSet → Except Problem Unit × RuleSet
  | .ok s' => (.ok (), s')
  | .error p => (.error p, s)

/-- What a change is answered, and the rule set after it. -/
def change (s : RuleSet) : Change → Except Problem Unit × RuleSet
  | .add r => s.settle (s.add r)
  | .throttle t => s.settle (s.setThrottle t)
  | .mode m => s.settle (.ok (s.setMode m))

/-- A change is refused and leaves the rule set as it was, or takes effect. -/
theorem change_cases (s : RuleSet) (c : Change) :
    (c.Refused s ∧ ∃ p, s.change c = (.error p, s)) ∨
      (¬c.Refused s ∧ s.change c = (.ok (), c.effect s)) := by
  cases c with
  | add r =>
    cases hadd : s.add r with
    | ok s' =>
      obtain ⟨hnew, rfl⟩ := add_eq_ok.mp hadd
      exact .inr ⟨hnew, congrArg s.settle hadd⟩
    | error p =>
      refine .inl ⟨?_, p, congrArg s.settle hadd⟩
      by_contra hnew
      simp [add_eq_ok.mpr ⟨hnew, rfl⟩] at hadd
  | throttle t =>
    cases hset : s.setThrottle t with
    | ok s' =>
      obtain ⟨hlimit, hsize, rfl⟩ := setThrottle_eq_ok.mp hset
      refine .inr ⟨?_, congrArg s.settle hset⟩
      rintro (hnone | hnone) <;> omega
    | error p =>
      refine .inl ⟨?_, p, congrArg s.settle hset⟩
      by_contra hroom
      have hlimit : 1 ≤ t.limit := Nat.one_le_iff_ne_zero.mpr fun hnone => hroom (.inl hnone)
      have hsize : 1 ≤ t.batchSize := Nat.one_le_iff_ne_zero.mpr fun hnone => hroom (.inr hnone)
      simp [setThrottle_eq_ok.mpr ⟨hlimit, hsize, rfl⟩] at hset
  | mode m => exact .inr ⟨id, rfl⟩

theorem change_of_refused (h : c.Refused s) : (s.change c).2 = s := by
  rcases s.change_cases c with ⟨-, p, heq⟩ | ⟨htaken, -⟩
  · rw [heq]
  · exact absurd h htaken

/-- A change that takes effect leaves a sound rule set sound. -/
theorem Sound.effect (hs : s.Sound) (hc : ¬c.Refused s) (hmade : ∀ r, c = .add r → r.WellMade) :
    (c.effect s).Sound := by
  cases c with
  | add r =>
    refine { hs with distinct := ?_, wellMade := fun q hq => ?_ }
    · rw [Change.effect, names_append, List.nodup_append]
      refine ⟨hs.distinct, by simp, fun name hold other hnew heq => hc ?_⟩
      rwa [heq, List.mem_singleton.mp hnew] at hold
    · rcases List.mem_append.mp hq with hq | hq
      · exact hs.wellMade q hq
      · exact List.mem_singleton.mp hq ▸ hmade r rfl
  | throttle t =>
    exact { hs with
      limit := Nat.one_le_iff_ne_zero.mpr fun hnone => hc (.inl hnone)
      batchSize := Nat.one_le_iff_ne_zero.mpr fun hnone => hc (.inr hnone) }
  | mode m => exact { hs with }

end RuleSet

/-! ## Rule sets side by side -/

/-- A rule set, and the rules that it was asked to take, each with whether it did. -/
structure Tracked where
  set : RuleSet
  tries : List (Rule × Bool)

namespace Tracked

/-- The rules that were accepted, in the order in which they were. -/
def accepted (t : Tracked) : List Rule := (t.tries.filter (·.2)).map (·.1)

/-- Asks for a change. -/
def ask (t : Tracked) (c : Change) : Tracked :=
  let (answer, set) := t.set.change c
  { set
    tries := match c with
      | .add r => t.tries ++ [(r, answer.toBool)]
      | _ => t.tries }

/-- The rule set is sound and holds just the rules that were accepted. -/
structure Keeps (t : Tracked) : Prop where
  sound : t.set.Sound
  rules : t.set.rules = t.accepted

theorem Keeps.ask {t : Tracked} {c : Change} (ht : t.Keeps)
    (hmade : ∀ r, c = .add r → r.WellMade) : (t.ask c).Keeps := by
  rcases t.set.change_cases c with ⟨-, p, hrefused⟩ | ⟨hnot, hchanged⟩
  · refine ⟨?_, ?_⟩
    · simpa [Tracked.ask, hrefused] using ht.sound
    · cases c <;> simp [Tracked.ask, hrefused, accepted, Except.toBool] <;> exact ht.rules
  · refine ⟨?_, ?_⟩
    · simpa [Tracked.ask, hchanged] using ht.sound.effect hnot hmade
    · cases c <;> simp [Tracked.ask, hchanged, accepted, Except.toBool, Change.effect] <;>
        exact ht.rules

end Tracked

/-- A move among rule sets side by side: one is changed, or a copy of it is put behind the others. -/
inductive Shelf.Move where
  | change (place : Nat) (c : Change)
  | copy (place : Nat)

/-- Takes one move. Where there is no rule set, nothing happens. -/
def Shelf.take (shelf : List Tracked) : Shelf.Move → List Tracked
  | .change place c => shelf.modify place (·.ask c)
  | .copy place => shelf ++ shelf[place]?.toList

namespace Shelf

variable {shelf : List Tracked} {move : Move} {moves : List Move}

/-- The rules that the move brings are well made. -/
def Move.WellMade (move : Move) : Prop := ∀ place r, move = .change place (.add r) → r.WellMade

theorem keeps_take (h : ∀ t ∈ shelf, t.Keeps) (hmade : move.WellMade) :
    ∀ t ∈ take shelf move, t.Keeps := by
  intro t ht
  cases move with
  | change place c =>
    obtain ⟨i, hi⟩ := List.mem_iff_getElem?.mp ht
    rw [take, List.getElem?_modify] at hi
    obtain ⟨old, hold, rfl⟩ := Option.map_eq_some_iff.mp hi
    have hkeeps := h old (List.mem_of_getElem? hold)
    split
    · exact hkeeps.ask fun r hr => hmade place r (congrArg _ hr)
    · exact hkeeps
  | copy place =>
    rcases List.mem_append.mp ht with ht | ht
    · exact h t ht
    · exact h t (List.mem_of_getElem? (by simpa using ht))

theorem keeps_foldl (h : ∀ t ∈ shelf, t.Keeps) (hmade : ∀ move ∈ moves, move.WellMade) :
    ∀ t ∈ moves.foldl take shelf, t.Keeps := by
  induction moves generalizing shelf with
  | nil => exact h
  | cons move moves ih =>
    exact ih (keeps_take h (hmade move (by simp))) fun m hm => hmade m (by simp [hm])

/-- A refused change leaves all rule sets as they were. -/
theorem sets_of_refused {place : Nat} {c : Change} {t : Tracked} (ht : shelf[place]? = some t)
    (hrefused : c.Refused t.set) :
    (take shelf (.change place c)).map (·.set) = shelf.map (·.set) := by
  have hkept : (t.ask c).set = t.set := RuleSet.change_of_refused hrefused
  refine List.ext_getElem? fun i => ?_
  rw [take, List.getElem?_map, List.getElem?_map, List.getElem?_modify]
  by_cases hi : place = i
  · subst hi
    simp [ht, hkept]
  · simp [hi]

end Shelf

/-! ## Building -/

/-- The throttle that a step sets. -/
def SetStep.throttle? : SetStep → Option Throttle
  | .throttle t => some t
  | _ => none

/-- The mode that a step sets. -/
def SetStep.mode? : SetStep → Option Mode
  | .mode m => some m
  | _ => none

namespace SetDraft

open Meaning

variable {name : String} {steps : List SetStep} {entries : List (Except Problem Rule)}

/-- Rules can be added one after the other exactly if all of them could be built and their names are
new and different. -/
theorem addRules_eq_ok : (addRules s entries).answer = .ok s' ↔
    ∃ rules : List Rule, entries = rules.map .ok ∧
      (rules.map (·.name)).Nodup ∧ (∀ r ∈ rules, r.name ∉ s.names) ∧
      s' = { s with rules := s.rules ++ rules } := by
  induction entries generalizing s with
  | nil =>
    constructor
    · intro h
      obtain rfl := Except.ok.inj h
      exact ⟨[], rfl, List.nodup_nil, by simp, by simp⟩
    · rintro ⟨rules, hnone, -, -, rfl⟩
      simp [List.map_eq_nil_iff.mp hnone.symm, addRules, Work.answer, pure]
  | cons entry entries ih =>
    cases entry with
    | error p =>
      constructor
      · rintro ⟨⟩
      rintro ⟨rules, hentries, -⟩
      cases rules <;> simp at hentries
    | ok r =>
      have hsplit : (∃ rules : List Rule, Except.ok r :: entries = rules.map .ok ∧
          (rules.map (·.name)).Nodup ∧ (∀ q ∈ rules, q.name ∉ s.names) ∧
          s' = { s with rules := s.rules ++ rules }) ↔
          r.name ∉ s.names ∧ ∃ rules : List Rule, entries = rules.map .ok ∧
            (rules.map (·.name)).Nodup ∧
            (∀ q ∈ rules, q.name ∉ ({ s with rules := s.rules ++ [r] } : RuleSet).names) ∧
            s' = { s with rules := s.rules ++ [r] ++ rules } := by
        constructor
        · rintro ⟨_ | ⟨q, rules⟩, hentries, hnodup, hnew, rfl⟩
          · cases hentries
          · obtain ⟨hq, rfl⟩ := List.cons.inj hentries
            obtain rfl := Except.ok.inj hq
            obtain ⟨hfirst, hnodup⟩ := List.nodup_cons.mp hnodup
            refine ⟨hnew r (by simp), rules, rfl, hnodup, fun q hq => ?_, by simp⟩
            have hne : q.name ≠ r.name := fun heq => hfirst (List.mem_map.mpr ⟨q, hq, heq⟩)
            simpa [RuleSet.names, hne] using hnew q (by simp [hq])
        · rintro ⟨hr, rules, rfl, hnodup, hnew, rfl⟩
          refine ⟨r :: rules, rfl, List.nodup_cons.mpr ⟨fun hmem => ?_, hnodup⟩, fun q hq => ?_,
            by simp⟩
          · obtain ⟨q, hq, heq⟩ := List.mem_map.mp hmem
            exact hnew q hq (by simp [RuleSet.names, heq])
          · rcases List.mem_cons.mp hq with rfl | hq
            · exact hr
            · exact fun hold => hnew q hq (RuleSet.names_append ▸ List.mem_append_left _ hold)
      rw [hsplit, addRules]
      cases hadd : s.add r with
      | ok next =>
        obtain ⟨hnew, rfl⟩ := RuleSet.add_eq_ok.mp hadd
        exact ih.trans (and_iff_right hnew).symm
      | error p =>
        constructor
        · rintro ⟨⟩
        rintro ⟨hnew, -⟩
        rw [RuleSet.add_eq_ok.mpr ⟨hnew, rfl⟩] at hadd
        cases hadd

/-- What some steps offer, each a rule or why it could not be built. -/
def offered (steps : List SetStep) : List (Except Problem Rule) := steps.flatMap added

/-- The rules among what some steps offer. -/
def offeredRules (steps : List SetStep) : List Rule := (offered steps).filterMap Except.toOption

theorem offeredRules_eq {rules : List Rule} (h : offered steps = rules.map .ok) :
    offeredRules steps = rules := by
  rw [offeredRules, h, List.filterMap_map]
  exact List.filterMap_some

/-- If all could be built, rules are all that is offered. -/
theorem offered_eq (h : ∀ entry ∈ offered steps, ∃ r, entry = .ok r) :
    offered steps = (offeredRules steps).map .ok := by
  rw [offeredRules]
  generalize offered steps = entries at h
  induction entries with
  | nil => rfl
  | cons entry entries ih =>
    obtain ⟨r, rfl⟩ := h entry (by simp)
    have hkept : (Except.ok r : Except Problem Rule).toOption = some r := rfl
    rw [List.filterMap_cons_some hkept, List.map_cons,
      ← ih fun entry hmem => h entry (by simp [hmem])]

/-- What steps offer is well made if the finished rules among them were made by steps. -/
theorem wellMade_of_offered (hsteps : ∀ r, .rule r ∈ steps → r.Made) (h : .ok r ∈ offered steps) :
    r.WellMade := by
  obtain ⟨step, hstep, hadded⟩ := List.mem_flatMap.mp h
  cases step with
  | rule q =>
    obtain rfl := Except.ok.inj (List.mem_singleton.mp hadded)
    exact (hsteps r hstep).wellMade
  | mode _ | throttle _ => cases hadded
  | _ => exact Draft.wellMade_of_build (List.mem_singleton.mp hadded).symm

theorem rules_ofSteps : (ofSteps name steps).rules = offered steps := by
  have hrules : ∀ d : SetDraft, (steps.foldl apply d).rules = d.rules ++ offered steps := by
    intro d
    induction steps generalizing d with
    | nil => simp [offered]
    | cons step steps ih => rw [List.foldl_cons, ih, rules_apply]; simp [offered]
  exact hrules { name }

theorem throttle_ofSteps :
    (ofSteps name steps).throttle = last SetStep.throttle? .interactive steps :=
  last_foldl SetDraft.throttle SetStep.throttle? (fun _ step => by cases step <;> rfl) { name } steps

theorem mode_ofSteps : (ofSteps name steps).mode = last SetStep.mode? .processAll steps :=
  last_foldl SetDraft.mode SetStep.mode? (fun _ step => by cases step <;> rfl) { name } steps

theorem build_eq_ok : (ofSteps name steps).build.answer = .ok s ↔
    1 ≤ (last SetStep.throttle? .interactive steps).limit ∧
      1 ≤ (last SetStep.throttle? .interactive steps).batchSize ∧
      ∃ rules : List Rule, offered steps = rules.map .ok ∧ (rules.map (·.name)).Nodup ∧
        s = { name := (ofSteps name steps).name
              rules
              mode := last SetStep.mode? .processAll steps
              throttle := last SetStep.throttle? .interactive steps } := by
  rw [build, throttle_ofSteps, mode_ofSteps, rules_ofSteps]
  cases hset : ({ name := (ofSteps name steps).name, mode := last SetStep.mode? .processAll steps :
      RuleSet }).setThrottle (last SetStep.throttle? .interactive steps) with
  | error p =>
    constructor
    · rintro ⟨⟩
    rintro ⟨hlimit, hsize, -⟩
    rw [RuleSet.setThrottle_eq_ok.mpr ⟨hlimit, hsize, rfl⟩] at hset
    cases hset
  | ok empty =>
    obtain ⟨hlimit, hsize, rfl⟩ := RuleSet.setThrottle_eq_ok.mp hset
    simp [addRules_eq_ok, hlimit, hsize, RuleSet.names]

/-- A rule set that was built is sound and holds just the rules that were offered. -/
theorem keeps_of_build (hsteps : ∀ r, .rule r ∈ steps → r.Made)
    (h : (ofSteps name steps).build.answer = .ok s) :
    (⟨s, (offeredRules steps).map (·, true)⟩ : Tracked).Keeps := by
  obtain ⟨hlimit, hsize, rules, hoffered, hnodup, rfl⟩ := build_eq_ok.mp h
  have haccepted : ∀ rules : List Rule,
      ((rules.map (·, true)).filter (·.2)).map (·.1) = rules := by
    intro rules
    induction rules with
    | nil => rfl
    | cons r rules ih => simp [ih]
  refine ⟨⟨hnodup, fun r hr => ?_, hlimit, hsize⟩, ?_⟩
  · exact wellMade_of_offered hsteps (hoffered ▸ List.mem_map_of_mem hr)
  · exact ((haccepted _).trans (offeredRules_eq hoffered)).symm

/-- Rule sets can be built exactly from a valid throttle and rules of different names that can be
built. However they are then copied and changed, they are sound and hold just the rules that were
accepted, and what they refuse changes nothing. -/
theorem build_keeps {moves : List Shelf.Move} (hsteps : ∀ r, .rule r ∈ steps → r.Made)
    (hmoves : ∀ place r, .change place (.add r) ∈ moves → r.Made) :
    ((∃ s, (ofSteps name steps).build.answer = .ok s) ↔
      (1 ≤ (last SetStep.throttle? .interactive steps).limit ∧
        1 ≤ (last SetStep.throttle? .interactive steps).batchSize) ∧
      (∀ entry ∈ offered steps, ∃ r, entry = .ok r) ∧
      ((offeredRules steps).map (·.name)).Nodup) ∧
    ∀ s, (ofSteps name steps).build.answer = .ok s →
      let shelf := moves.foldl Shelf.take [⟨s, (offeredRules steps).map (·, true)⟩]
      (∀ t ∈ shelf, t.set.Sound ∧ t.set.rules = t.accepted) ∧
      ∀ place t c, shelf[place]? = some t →
        (c.Refused t.set ∧ (∃ p, t.set.change c = (.error p, t.set)) ∧
          (Shelf.take shelf (.change place c)).map (·.set) = shelf.map (·.set)) ∨
        (¬c.Refused t.set ∧ t.set.change c = (.ok (), c.effect t.set)) := by
  refine ⟨?_, fun s hs => ⟨?_, fun place t c ht => ?_⟩⟩
  · constructor
    · rintro ⟨s, hs⟩
      obtain ⟨hlimit, hsize, rules, hoffered, hnodup, -⟩ := build_eq_ok.mp hs
      refine ⟨⟨hlimit, hsize⟩, fun entry hentry => ?_, offeredRules_eq hoffered ▸ hnodup⟩
      rw [hoffered] at hentry
      obtain ⟨r, -, rfl⟩ := List.mem_map.mp hentry
      exact ⟨r, rfl⟩
    · rintro ⟨⟨hlimit, hsize⟩, hbuilt, hnodup⟩
      exact ⟨_, build_eq_ok.mpr ⟨hlimit, hsize, _, offered_eq hbuilt, hnodup, rfl⟩⟩
  · have hkeeps : ∀ t ∈ moves.foldl Shelf.take [⟨s, (offeredRules steps).map (·, true)⟩], t.Keeps :=
      Shelf.keeps_foldl (fun t ht => List.mem_singleton.mp ht ▸ keeps_of_build hsteps hs)
        fun move hmove place r heq => (hmoves place r (heq ▸ hmove)).wellMade
    exact fun t ht => ⟨(hkeeps t ht).sound, (hkeeps t ht).rules⟩
  · exact (t.set.change_cases c).imp_left fun ⟨hrefused, hkept⟩ =>
      ⟨hrefused, hkept, Shelf.sets_of_refused ht hrefused⟩

/-- The copy of a rule set takes a rule, and the first one is asked for a throttle without room. -/
def copyMoves (r : Rule) : List Shelf.Move :=
  [.copy 0, .change 1 (.add r), .change 0 (.throttle { Throttle.interactive with limit := 0 })]

/-- A rule set of one rule is copied and the copy gets a second one; both are sound. -/
theorem build_keeps_copied : ∃ r s first second,
    (Draft.ofSteps "found" [.forColumn "Code", .required]).build = .ok r ∧
    (ofSteps "codes" [.required "Code"]).build.answer = .ok s ∧
    (copyMoves r).foldl Shelf.take [⟨s, (offeredRules [.required "Code"]).map (·, true)⟩] =
      [first, second] ∧
    (first.set.Sound ∧ first.set.rules = first.accepted) ∧
    (second.set.Sound ∧ second.set.rules = second.accepted) := by
  obtain ⟨r, hr⟩ : ∃ r, (Draft.ofSteps "found" [.forColumn "Code", .required]).build = .ok r :=
    ⟨_, rfl⟩
  obtain ⟨s, hs⟩ : ∃ s, (ofSteps "codes" [.required "Code"]).build.answer = .ok s := ⟨_, rfl⟩
  have hmoves : ∀ place q, .change place (.add q) ∈ copyMoves r → q.Made := by
    intro place q hq
    obtain ⟨-, rfl⟩ : place = 1 ∧ q = r := by simpa [copyMoves] using hq
    exact ⟨_, _, hr⟩
  have hkeeps := ((build_keeps (by simp) hmoves).2 s hs).1
  exact ⟨r, s, _, _, hr, hs, rfl, hkeeps _ List.mem_cons_self,
    hkeeps _ (List.mem_cons_of_mem _ List.mem_cons_self)⟩

end SetDraft

end CellRules
