import ClauseLearning.Proofs.Limits

/-!
# Runs with other limits

Limits are looked at before a decision is made and before a conflict is looked for, even if none is needed any more. So
a search that finds a model needs limits beyond what it counts, while one that finds none can use its limits up.

* `Solver.withLimits` : the same solver with other limits;
* `Schedule.Allows` : limits under which a search with some verdict and some counters is not interrupted;
* `search_withLimits` : such a search takes the same course;
* `solveWith_withLimits` : a limited solve call does the same as one without limits, or it answers that nothing is
  known.
-/

namespace ClauseLearning

namespace Schedule

/-- The same counters with other limits. -/
def withLimits (a : Schedule) (decisionLimit conflictLimit : Option Nat) : Schedule :=
  { a with decisionLimit := decisionLimit, conflictLimit := conflictLimit }

/-- A limit under which a search is not interrupted that counts up to `used`: it is not less and, if the search finds a
model, it is more. -/
def Allows (limit : Option Nat) (used : Nat) (v : Verdict) : Prop := ∀ n ∈ limit, used ≤ n ∧ (v = .sat → used < n)

theorem Allows.mono {limit : Option Nat} {used used' : Nat} {v v' : Verdict} (h : Allows limit used v)
    (hu : used' ≤ used) (hv : v' = .sat → v = .sat) : Allows limit used' v' := by
  intro n hn
  obtain ⟨h1, h2⟩ := h n hn
  exact ⟨Nat.le_trans hu h1, fun hs => Nat.lt_of_le_of_lt hu (h2 (hv hs))⟩

end Schedule

namespace Solver

open Schedule (Counted Within Allows)

variable {s s' t : Solver} {D N : Option Nat} {d c : Nat}

/-- The same solver with other limits. -/
def withLimits (s : Solver) (decisionLimit conflictLimit : Option Nat) : Solver :=
  (s.setDecisionLimit decisionLimit).setConflictLimit conflictLimit

/-! ## Single operations -/

theorem withSchedule_withLimits (h : t.schedule = s.schedule) :
    t.withSchedule (s.schedule.withLimits D N) = t.withLimits D N := by
  rw [← h]
  rfl

theorem propagate_withLimits (s : Solver) :
    (s.withLimits D N).propagate = (s.propagate.1, s.propagate.2.withLimits D N) := rfl

theorem tidyOnLevelZero_withLimits (s : Solver) :
    (s.withLimits D N).tidyOnLevelZero = s.tidyOnLevelZero.withLimits D N :=
  (tidyOnLevelZero_withSchedule s (s.schedule.withLimits D N)).trans
    (withSchedule_withLimits (schedule_tidyOnLevelZero s))

theorem makeDecision_withLimits {made : Bool} (h : s.makeDecision = (made, t)) :
    (s.withLimits D N).makeDecision = (made, t.withLimits D N) := by
  have hs : (s.withLimits D N).makeDecision = _ := makeDecision_withSchedule s (s.schedule.withLimits D N)
  rw [hs, h]
  exact congrArg (Prod.mk made) (withSchedule_withLimits (schedule_of_makeDecision h))

theorem learn_withLimits (s : Solver) (r : ClauseRef) : (s.withLimits D N).learn r = (s.learn r).withLimits D N :=
  (learn_withSchedule s (s.schedule.withLimits D N) r).trans (withSchedule_withLimits (schedule_learn s r))

theorem restartIfDue_withLimits (s : Solver) : (s.withLimits D N).restartIfDue = s.restartIfDue.withLimits D N := by
  unfold restartIfDue
  rw [apply_ite (withLimits · D N)]
  refine ite_congr rfl (fun _ => ?_) fun _ => rfl
  have hplan (s : Solver) (e : Event) (b : Prop) [Decidable b] :
      ((if b then (s.withLimits D N).report e else s.withLimits D N).backtrack 0) =
        ((if b then s.report e else s).backtrack 0).withLimits D N := by
    split <;> rfl
  exact hplan s.planRestart _ _

theorem reduceIfDue_withLimits (s : Solver) : (s.withLimits D N).reduceIfDue = s.reduceIfDue.withLimits D N := by
  have hreduce (interval : Config → UInt64) (reduce : Propagator → Event × Propagator) (s : Solver) :
      (if (s.withLimits D N).schedule.reductionDue (interval s.config) = true then
        ({ s.withLimits D N with prop := (reduce s.prop).2 } : Solver).report (reduce s.prop).1
      else s.withLimits D N) =
        (if s.schedule.reductionDue (interval s.config) = true then
          ({ s with prop := (reduce s.prop).2 } : Solver).report (reduce s.prop).1
        else s).withLimits D N := by
    rw [apply_ite (withLimits · D N)]
    rfl
  have hlocals := hreduce Config.reduceLocalsInterval (·.reduceLocals s.ties) s
  exact (congrArg (fun t : Solver => if t.schedule.reductionDue t.config.reduceMidsInterval = true then
    ({ t with prop := t.prop.reduceMids.2 } : Solver).report t.prop.reduceMids.1 else t) hlocals).trans
      (hreduce Config.reduceMidsInterval Propagator.reduceMids _)

/-! ## The search -/

theorem reached_of_decision {fuel : Nat} {outcome : Outcome}
    (h : findConflictFuel fuel { s with schedule := s.schedule.countDecision } = (outcome, t))
    (hD : ∀ n ∈ D, t.schedule.searchDecisions ≤ n) : Schedule.reached D s.schedule.searchDecisions = false := by
  obtain ⟨d, hc⟩ := findConflictFuel_counted fuel { s with schedule := s.schedule.countDecision }
  rw [h] at hc
  have hcount : t.schedule.searchDecisions = s.schedule.searchDecisions + 1 + d := hc.searchDecisions_eq
  refine Schedule.reached_eq_false.2 fun n hn => ?_
  have hle := hD n hn
  omega

theorem findConflictFuel_withLimits {fuel : Nat} {outcome : Outcome}
    (h : findConflictFuel fuel s = (outcome, t)) (ho : outcome ≠ .interrupted)
    (hD : ∀ n ∈ D, t.schedule.searchDecisions ≤ n ∧ (outcome = .model → t.schedule.searchDecisions < n)) :
    findConflictFuel fuel (s.withLimits D N) = (outcome, t.withLimits D N) := by
  induction fuel generalizing s with
  | zero => exact absurd (Prod.mk.inj h).1.symm ho
  | succ fuel ih =>
    rw [findConflictFuel] at h ⊢
    rw [propagate_withLimits]
    generalize s.propagate = out at h
    obtain ⟨conflict, s₁⟩ := out
    cases conflict with
    | some r =>
      obtain ⟨rfl, rfl⟩ := Prod.mk.inj h
      rfl
    | none =>
      dsimp only at h ⊢
      rw [tidyOnLevelZero_withLimits]
      generalize s₁.tidyOnLevelZero = s₂ at h
      split at h
      · exact absurd (Prod.mk.inj h).1.symm ho
      · cases hd : s₂.makeDecision with
        | mk made s₃ =>
          have hs₃ := schedule_of_makeDecision hd
          rw [hd] at h
          rw [makeDecision_withLimits hd]
          cases made with
          | false =>
            -- all candidates are assigned, which the limit has to leave time to find out
            obtain ⟨rfl, rfl⟩ := Prod.mk.inj h
            rw [if_neg]
            rw [Bool.not_eq_true]
            refine Schedule.reached_eq_false.2 fun n hn => ?_
            have := (hD n hn).2 rfl
            rwa [hs₃] at this
          | true =>
            rw [if_neg]
            · exact ih h
            · have hallowed := reached_of_decision h fun n hn => (hD n hn).1
              rw [hs₃] at hallowed
              exact Bool.eq_false_iff.1 hallowed

theorem conflictStep_withLimits (hi : s.conflictStep.interrupted = false)
    (hD : Allows D s.conflictStep.schedule.searchDecisions s.conflictStep.verdict) :
    (s.withLimits D N).conflictStep = s.conflictStep.withLimits D N := by
  have hsame : s.findConflict = (s.findConflict.1, s.findConflict.2) := rfl
  have hfind := @findConflictFuel_withLimits s s.findConflict.2 D N (s.varCount + 1) s.findConflict.1 hsame
  change _ → _ → (s.withLimits D N).findConflict = _ at hfind
  unfold conflictStep at hi hD ⊢
  generalize s.findConflict = out at hi hD hfind
  obtain ⟨outcome, t⟩ := out
  cases outcome with
  | model =>
    rw [hfind (fun h => (nomatch h)) fun n hn => ⟨(hD n hn).1, fun _ => (hD n hn).2 rfl⟩]
    rfl
  | interrupted => cases hi
  | conflict r =>
    dsimp only at hD ⊢
    rw [hfind (fun h => (nomatch h)) fun n hn => ⟨?_, fun h => (nomatch h)⟩]
    · exact learn_withLimits { t with schedule := t.schedule.countConflict } r
    · have := (hD n hn).1
      rwa [schedule_learn] at this

theorem step_withLimits (h : s.step = (true, t)) (hi : t.interrupted = false)
    (hD : Allows D t.schedule.searchDecisions t.verdict) (hN : Allows N t.schedule.searchConflicts t.verdict) :
    (s.withLimits D N).step = (true, t.withLimits D N) := by
  unfold step at h ⊢
  split at h
  · cases (Prod.mk.inj h).1
  · next hgo =>
    split at h
    · cases (Prod.mk.inj h).1
    · obtain rfl := (Prod.mk.inj h).2
      rw [if_neg (show ¬ ((s.withLimits D N).status ≠ .unknown ∨ (s.withLimits D N).interrupted = true) from hgo),
        if_neg, restartIfDue_withLimits, reduceIfDue_withLimits, conflictStep_withLimits hi hD]
      rw [Bool.not_eq_true]
      refine Schedule.reached_eq_false.2 fun n hn => ?_
      obtain ⟨h1, h2⟩ := hN n hn
      obtain ⟨d, c, hc, hover⟩ := s.restartIfDue.reduceIfDue.conflictStep_counted
      have hbegun := s.begun_counted.searchConflicts_eq
      have hcount := hc.searchConflicts_eq
      show s.schedule.searchConflicts < n
      by_cases h0 : c = 0
      · -- no conflict is counted only if the step ends with a model
        have hsat := (hover h0).resolve_right (Bool.eq_false_iff.1 hi)
        have := h2 (verdict_eq_sat.2 hsat)
        omega
      · omega

theorem step_of_over (h : s.status ≠ .unknown ∨ s.interrupted = true) : s.step = (false, s) := if_pos h

theorem searchFuel_of_over {fuel : Nat} (h : s.status ≠ .unknown ∨ s.interrupted = true) : searchFuel fuel s = s := by
  cases fuel with
  | zero => rfl
  | succ fuel => rw [searchFuel, step_of_over h]

theorem allows_of_searchFuel {fuel : Nat} (hs : searchFuel fuel s = t)
    (hD : Allows D t.schedule.searchDecisions t.verdict) (hN : Allows N t.schedule.searchConflicts t.verdict) :
    Allows D s.schedule.searchDecisions s.verdict ∧ Allows N s.schedule.searchConflicts s.verdict := by
  have hv : s.verdict = .sat → t.verdict = .sat := by
    intro hv
    have hne : s.status ≠ .unknown := by
      rw [verdict_eq_sat.1 hv]
      exact Status.noConfusion
    rw [searchFuel_of_over (Or.inl hne)] at hs
    exact hs ▸ hv
  obtain ⟨d, c, hc⟩ := searchFuel_counted fuel s
  rw [hs] at hc
  have hd : s.schedule.searchDecisions ≤ t.schedule.searchDecisions := by
    rw [hc.searchDecisions_eq]
    exact Nat.le_add_right _ _
  have hn : s.schedule.searchConflicts ≤ t.schedule.searchConflicts := by
    rw [hc.searchConflicts_eq]
    exact Nat.le_add_right _ _
  exact ⟨hD.mono hd hv, hN.mono hn hv⟩

theorem searchFuel_withLimits {fuel : Nat} (h : s.Inv) (hm : s.Metered) (hs : searchFuel fuel s = t)
    (ht : t.status ≠ .unknown) (hD : Allows D t.schedule.searchDecisions t.verdict)
    (hN : Allows N t.schedule.searchConflicts t.verdict) :
    searchFuel fuel (s.withLimits D N) = t.withLimits D N := by
  induction fuel generalizing s with
  | zero => exact congrArg (withLimits · D N) hs
  | succ fuel ih =>
    rw [searchFuel] at hs ⊢
    cases hstep : s.step with
    | mk goOn s₁ =>
      rw [hstep] at hs
      cases goOn with
      | false =>
        obtain rfl : s₁ = t := hs
        have hst : s.status ≠ .unknown := (step_false h hstep).status_eq ▸ ht
        rw [step_of_over (Or.inl hst)] at hstep
        obtain rfl := (Prod.mk.inj hstep).2
        rw [step_of_over (show (s.withLimits D N).status ≠ .unknown ∨ _ from Or.inl hst)]
      | true =>
        change searchFuel fuel s₁ = t at hs
        have hm₁ := step_metered h hm
        rw [hstep] at hm₁
        have hi : s₁.interrupted = false := by
          apply Bool.eq_false_iff.2
          intro hi
          -- an interrupted search stays without a verdict
          rw [searchFuel_of_over (Or.inr hi)] at hs
          exact ht (hs ▸ (hm₁.interrupted hi).1)
        obtain ⟨hD₁, hN₁⟩ := allows_of_searchFuel hs hD hN
        rw [step_withLimits hstep hi hD₁ hN₁]
        exact ih (step_true h hstep).2.2.searched.inv hm₁ hs

theorem conclude_withLimits (s : Solver) :
    (s.withLimits D N).conclude = (s.conclude.1, s.conclude.2.withLimits D N) := by
  have hv : (s.withLimits D N).verdict = s.verdict := rfl
  unfold conclude
  rw [hv]
  dsimp only
  split <;> rfl

theorem searchStart_withLimits (s : Solver) (simplifyFirst turnOff : Bool) :
    (s.withLimits D N).searchStart simplifyFirst turnOff =
      (s.searchStart simplifyFirst turnOff).withLimits D N := by
  have hsched : (s.searchStart simplifyFirst turnOff).schedule = s.schedule.startSearch :=
    schedule_of_withSchedule (searchStart_withSchedule s s.schedule simplifyFirst turnOff)
  have hs : (s.withLimits D N).searchStart simplifyFirst turnOff = _ :=
    searchStart_withSchedule s (s.schedule.withLimits D N) simplifyFirst turnOff
  rw [hs]
  show _ = (s.searchStart simplifyFirst turnOff).withSchedule
    ((s.searchStart simplifyFirst turnOff).schedule.withLimits D N)
  rw [hsched]
  rfl

end Solver

/-! ## Solve calls -/

open Schedule (Allows)
open Solver (withLimits)

variable {counting : Counting} {s t : Solver} {f : List (List Lit)} {D N : Option Nat}

theorem Reachable.withLimits (h : Reachable counting s f) (D N : Option Nat) :
    Reachable counting (s.withLimits D N) f := by
  have h' : Reachable counting (s.withLimits D N) (f ++ [] ++ []) :=
    (h.call (.setDecisionLimit D)).call (.setConflictLimit N)
  rwa [List.append_nil, List.append_nil] at h'

/-- A search of a solve call that has a verdict takes the same course under any limits that allow it. -/
theorem search_withLimits (h : Reachable counting s f) (simplifyFirst turnOff : Bool)
    (hs : (s.searchStart simplifyFirst turnOff).search = t) (ht : t.status ≠ .unknown)
    (hD : Allows D t.schedule.searchDecisions t.verdict) (hN : Allows N t.schedule.searchConflicts t.verdict) :
    ((s.withLimits D N).searchStart simplifyFirst turnOff).search = t.withLimits D N := by
  rw [Solver.searchStart_withLimits]
  exact Solver.searchFuel_withLimits (Solver.searchStart_called h.inv simplifyFirst turnOff).1.inv
    (Solver.searchStart_metered h.inv h.timed simplifyFirst turnOff) hs ht hD hN

theorem search_without_limits (h : Reachable counting s f) (simplifyFirst turnOff : Bool) :
    ((s.withLimits none none).searchStart simplifyFirst turnOff).search.status ≠ .unknown := by
  obtain ⟨hm, hover, d, c, hc⟩ := search_of_reachable (h.withLimits none none) simplifyFirst turnOff
  generalize ((s.withLimits none none).searchStart simplifyFirst turnOff).search = t at hm hover hc
  refine hover.resolve_right fun hi => ?_
  rcases (hm.interrupted hi).2 with hr | hr
  · rw [Schedule.decisionLimitReached, show t.schedule.decisionLimit = none from hc.decisionLimit_eq] at hr
    cases hr
  · rw [Schedule.conflictLimitReached, show t.schedule.conflictLimit = none from hc.conflictLimit_eq] at hr
    cases hr

theorem allows_of_search (h : Reachable counting s f) (simplifyFirst turnOff : Bool)
    (hs : ((s.withLimits D N).searchStart simplifyFirst turnOff).search = t) :
    Allows D t.schedule.searchDecisions t.verdict ∧ Allows N t.schedule.searchConflicts t.verdict := by
  obtain ⟨hm, -, d, c, hc⟩ := search_of_reachable (h.withLimits D N) simplifyFirst turnOff
  rw [hs] at hm hc
  have hD : t.schedule.decisionLimit = D := hc.decisionLimit_eq
  have hN : t.schedule.conflictLimit = N := hc.conflictLimit_eq
  have hsat (hv : t.verdict = .sat) := hm.model (Solver.verdict_eq_sat.1 hv)
  refine ⟨fun n hn => ⟨hm.decisions n (hD ▸ hn), fun hv => ?_⟩, fun n hn => ⟨hm.conflicts n (hN ▸ hn), fun hv => ?_⟩⟩
  · exact Schedule.reached_eq_false.1 (hsat hv).1 n (hD ▸ hn)
  · exact Schedule.reached_eq_false.1 (hsat hv).2 n (hN ▸ hn)

/-- Limits matter only when they are used up. If a solve call without limits makes `d` decisions and meets `c`
conflicts, then the same call ends in the same way and in the same state under all limits that are not less or, if it
finds a model, that are more. Under all other limits it answers that nothing is known. -/
theorem solveWith_withLimits (h : Reachable counting s f) (simplifyFirst turnOff : Bool) :
    ∃ v t d c, (s.withLimits none none).solveWith simplifyFirst turnOff = (v, t) ∧ v ≠ .unknown ∧
      t.schedule.decisions = s.schedule.decisions + d ∧ t.schedule.conflicts = s.schedule.conflicts + c ∧
        ∀ D N, (Allows D d v ∧ Allows N c v →
            (s.withLimits D N).solveWith simplifyFirst turnOff = (v, t.withLimits D N)) ∧
          (¬ (Allows D d v ∧ Allows N c v) → ((s.withLimits D N).solveWith simplifyFirst turnOff).1 = .unknown) := by
  have hne := search_without_limits h simplifyFirst turnOff
  obtain ⟨-, -, d, c, hc⟩ := search_of_reachable (h.withLimits none none) simplifyFirst turnOff
  generalize ht : ((s.withLimits none none).searchStart simplifyFirst turnOff).search = t at hne hc
  have hd : t.schedule.searchDecisions = d := hc.searchDecisions_eq.trans (Nat.zero_add d)
  have hn : t.schedule.searchConflicts = c := hc.searchConflicts_eq.trans (Nat.zero_add c)
  refine ⟨t.verdict, t.conclude.2, d, c, by rw [Solver.solveWith_eq, ht]; rfl,
    fun hv => hne (Solver.verdict_eq_unknown.1 hv), ?_, ?_, fun D N => ⟨fun hall => ?_, fun hall => ?_⟩⟩
  · rw [(Solver.conclude_sameTimes t).schedule_eq]
    exact hc.decisions_eq
  · rw [(Solver.conclude_sameTimes t).schedule_eq]
    exact hc.conflicts_eq
  · have hs : ((s.withLimits D N).searchStart simplifyFirst turnOff).search = t.withLimits D N :=
      search_withLimits (h.withLimits none none) simplifyFirst turnOff ht hne (hd.symm ▸ hall.1) (hn.symm ▸ hall.2)
    rw [Solver.solveWith_eq, hs]
    exact Solver.conclude_withLimits t
  · -- a verdict under these limits would be the one without limits, at the same cost
    rw [Solver.solveWith_eq]
    generalize hs : ((s.withLimits D N).searchStart simplifyFirst turnOff).search = u
    refine Classical.byContradiction fun hv => hall ?_
    have hu : u.status ≠ .unknown := fun hu => hv (Solver.verdict_eq_unknown.2 hu)
    have hsame : ((s.withLimits none none).searchStart simplifyFirst turnOff).search = u.withLimits none none :=
      search_withLimits (h.withLimits D N) simplifyFirst turnOff hs hu (fun n hn => nomatch hn)
        (fun n hn => nomatch hn)
    obtain rfl : t = u.withLimits none none := ht.symm.trans hsame
    obtain ⟨h1, h2⟩ := allows_of_search h simplifyFirst turnOff hs
    exact ⟨hd ▸ h1, hn ▸ h2⟩

theorem solveWith_withLimits_equivalence :
    ((equivalenceSolver.withLimits (some 2) (some 1)).solveWith false false).1 = .sat := by
  obtain ⟨v, t, d, c, hfree, -, hd, hc, hall⟩ := solveWith_withLimits reachable_equivalence false false
  have hv : ((equivalenceSolver.withLimits none none).solveWith false false).1 = .sat := by decide +kernel
  have hdecisions : ((equivalenceSolver.withLimits none none).solveWith false false).2.schedule.decisions = 1 := by
    decide +kernel
  have hconflicts : ((equivalenceSolver.withLimits none none).solveWith false false).2.schedule.conflicts = 0 := by
    decide +kernel
  rw [hfree] at hv hdecisions hconflicts
  have hd1 : 1 = 0 + d := hdecisions.symm.trans hd
  have hc0 : 0 = 0 + c := hconflicts.symm.trans hc
  rw [(hall (some 2) (some 1)).1 ⟨fun n hn => ?_, fun n hn => ?_⟩]
  · exact hv
  · obtain rfl := Option.some.inj hn
    exact ⟨by omega, fun _ => by omega⟩
  · obtain rfl := Option.some.inj hn
    exact ⟨by omega, fun _ => by omega⟩

/-- A search that finds a model with one decision and without a conflict is interrupted if it may make just this one
decision, or if it may not meet any conflict. -/
theorem model_needs_more_than_it_uses :
    Reachable .words equivalenceSolver [[⟨0⟩, ⟨3⟩], [⟨1⟩, ⟨2⟩]] ∧
      ((equivalenceSolver.withLimits none none).solve.1 = .sat ∧
        (equivalenceSolver.withLimits none none).solve.2.schedule.decisions =
          equivalenceSolver.schedule.decisions + 1 ∧
        (equivalenceSolver.withLimits none none).solve.2.schedule.conflicts = equivalenceSolver.schedule.conflicts) ∧
      (equivalenceSolver.withLimits (some 1) none).solve.1 = .unknown ∧
        (equivalenceSolver.withLimits none (some 0)).solve.1 = .unknown :=
  ⟨reachable_equivalence, by decide +kernel⟩

end ClauseLearning
