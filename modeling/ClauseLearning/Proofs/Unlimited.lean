import ClauseLearning.Proofs.Session
import ClauseLearning.Proofs.Termination

/-!
# Solve calls without limits

* `Solver.SameTimes` : what calls other than solve calls and settings leave alone;
* `Call.run_timed`, `Reachable.timed` : the schedule keeps to its plan in every state that calls lead to;
* `Solver.Unlimited` : a search without limits is not interrupted;
* `unlimited_solve_decides` : without limits every solve call ends its search, and answers that there is a model or that
  there is none.
-/

namespace ClauseLearning

namespace ConfigUpdate

variable {setting : String} {interval : Option UInt64} {n : UInt64} {u : ConfigUpdate}

theorem problem?_eq_none_iff : u.problem? = none ↔
    decayProblem? "vsids_decay" u.vsidsDecay = none ∧
      decayProblem? "clause_activity_decay" u.clauseActivityDecay = none ∧
      intervalProblem? "reduce_locals_interval" u.reduceLocalsInterval = none ∧
      intervalProblem? "reduce_mids_interval" u.reduceMidsInterval = none ∧
      intervalProblem? "luby_restart_interval_scale" u.lubyRestartIntervalScale = none := by
  simp only [problem?, Option.orElse_eq_orElse, Option.orElse_eq_or, Option.or_eq_none_iff]

theorem getD_ne_zero (h : intervalProblem? setting interval = none) (hn : n ≠ 0) : interval.getD n ≠ 0 := by
  cases interval with
  | none => exact hn
  | some k =>
    rintro rfl
    cases h

end ConfigUpdate

namespace Solver

variable {s s' s'' : Solver} {k : Nat} {ls : List Lit}

/-! ## The plan for restarts between searches -/

/-- The configuration stays, and so do all counters and limits. -/
structure SameTimes (s s' : Solver) : Prop where
  config_eq : s'.config = s.config
  schedule_eq : s'.schedule = s.schedule

theorem SameTimes.refl (s : Solver) : SameTimes s s := ⟨rfl, rfl⟩

theorem SameTimes.trans (h : SameTimes s s') (h' : SameTimes s' s'') : SameTimes s s'' :=
  ⟨h'.config_eq.trans h.config_eq, h'.schedule_eq.trans h.schedule_eq⟩

theorem SameTimes.timed (h : SameTimes s s') (ht : s.Timed) : s'.Timed :=
  ⟨h.config_eq.symm ▸ ht.scale_pos, h.schedule_eq.symm ▸ ht.timely⟩

theorem allocate_sameTimes (s : Solver) (info : Variable) : SameTimes s (s.allocate info).2 := ⟨rfl, rfl⟩

theorem ensureVarCount_sameTimes (s : Solver) (count : Nat) : SameTimes s (s.ensureVarCount count) :=
  ensureVarCount_keeps (SameTimes.refl s) (fun t ht => ht.trans (allocate_sameTimes t {})) count

theorem setDecision_sameTimes (s : Solver) (v : Var) (decision : Bool) : SameTimes s (s.setDecision v decision).2 := by
  unfold setDecision
  split <;> exact ⟨rfl, rfl⟩

theorem setFrozen_sameTimes (s : Solver) (v : Var) (frozen : Bool) : SameTimes s (s.setFrozen v frozen).2 := by
  unfold setFrozen
  split <;> exact ⟨rfl, rfl⟩

theorem load_sameTimes (s : Solver) (ls : List Lit) : SameTimes s (s.load ls) := by
  unfold load
  split
  · exact SameTimes.refl s
  · dsimp only
    split
    · exact ⟨rfl, rfl⟩
    · split <;> exact ⟨rfl, rfl⟩

theorem propagateFacts_sameTimes (s : Solver) : SameTimes s s.propagateFacts := by
  unfold propagateFacts propagate
  split
  · exact SameTimes.refl s
  · generalize s.prop.propagate = out
    obtain ⟨conflict, p⟩ := out
    cases conflict <;> exact ⟨rfl, rfl⟩

theorem addClause_sameTimes (s : Solver) (ls : List Lit) : SameTimes s (s.addClause ls).2 := by
  unfold addClause
  split
  · exact SameTimes.refl s
  · exact (load_sameTimes s ls).trans (propagateFacts_sameTimes _)

theorem addClauses_sameTimes (cs : List (List Lit)) (s : Solver) : SameTimes s (addClauses cs s).2 := by
  induction cs generalizing s with
  | nil => exact SameTimes.refl s
  | cons c cs ih =>
    have h := addClause_sameTimes s c
    rw [addClauses]
    generalize s.addClause c = out at h
    obtain ⟨answer, s₁⟩ := out
    cases answer with
    | error e => exact h
    | ok b => exact h.trans (ih s₁)

theorem simplifyFormula_sameTimes (h : s.Inv) (eliminate : Bool) :
    SameTimes s (s.rewind.simplifyFormula eliminate) := by
  have h1 := (simplifyFormula_spec (rewind_searched h).inv (currentLevel_rewind s) eliminate).2
  exact ⟨h1.config_eq, h1.schedule_eq⟩

theorem eliminate_sameTimes (h : s.Inv) (turnOff : Bool) : SameTimes s (s.eliminate turnOff).2 := by
  have h1 := simplifyFormula_sameTimes h true
  cases turnOff with
  | false => exact h1
  | true => exact h1.trans ⟨rfl, rfl⟩

theorem configure_timed (ht : s.Timed) (u : ConfigUpdate) : (s.configure u).2.Timed := by
  unfold configure ConfigUpdate.apply
  cases hp : u.problem? with
  | some problem => exact ht
  | none =>
    refine ⟨?_, ht.timely⟩
    obtain ⟨-, -, -, -, hscale⟩ := ConfigUpdate.problem?_eq_none_iff.1 hp
    have hne := ConfigUpdate.getD_ne_zero hscale fun h0 => Nat.lt_irrefl 0 (h0 ▸ ht.scale_pos : 0 < (0 : UInt64).toNat)
    exact Nat.pos_of_ne_zero fun h0 => hne (UInt64.toNat_inj.1 h0)

/-! ## Searches -/

theorem searchStart_timed (h : s.Inv) (ht : s.Timed) (simplifyFirst turnOff : Bool) :
    (s.searchStart simplifyFirst turnOff).Timed ∧
      (s.searchStart simplifyFirst turnOff).schedule = s.schedule.startSearch ∧
      (s.searchStart simplifyFirst turnOff).interrupted = false := by
  have h1 : SameTimes s (if simplifyFirst then (s.eliminate turnOff).2 else s) := by
    cases simplifyFirst with
    | false => exact SameTimes.refl s
    | true => exact eliminate_sameTimes h turnOff
  unfold searchStart
  generalize (if simplifyFirst = true then (s.eliminate turnOff).2 else s) = s₁ at h1
  have ht₁ := h1.timed ht
  exact ⟨⟨ht₁.scale_pos, ht₁.timely.congr rfl rfl rfl rfl⟩, congrArg Schedule.startSearch h1.schedule_eq, rfl⟩

theorem searchFuel_timed {fuel : Nat} (h : s.Inv) (ht : s.Timed) : (searchFuel fuel s).Timed := by
  induction fuel generalizing s with
  | zero => exact ht
  | succ fuel ih =>
    rw [searchFuel]
    cases hstep : s.step with
    | mk goOn s' =>
      cases goOn with
      | true =>
        obtain ⟨-, -, h1⟩ := step_true h hstep
        exact ih h1.searched.inv (h1.timed ht)
      | false =>
        have h1 := step_false h hstep
        exact SameTimes.timed ⟨h1.searched.config_eq, h1.schedule_eq⟩ ht

theorem conclude_sameTimes (s : Solver) : SameTimes s s.conclude.2 := by
  unfold conclude
  dsimp only
  split <;> exact ⟨rfl, rfl⟩

theorem solveWith_timed (h : s.Inv) (ht : s.Timed) (simplifyFirst turnOff : Bool) :
    (s.solveWith simplifyFirst turnOff).2.Timed := by
  have h1 := (searchStart_called h simplifyFirst turnOff).1
  have h2 := (searchStart_timed h ht simplifyFirst turnOff).1
  exact (conclude_sameTimes _).timed (searchFuel_timed h1.inv h2)

/-- A search without limits that is not interrupted. -/
structure Unlimited (s : Solver) : Prop where
  inv : s.Inv
  conflictLimit_eq : s.schedule.conflictLimit = none
  decisionLimit_eq : s.schedule.decisionLimit = none
  interrupted_eq : s.interrupted = false

theorem Unlimited.afterSteps (h : s.Unlimited) (hk : ∀ i < k, (afterSteps i s).step.1 = true) :
    (afterSteps k s).Unlimited := by
  induction k generalizing s with
  | zero => exact h
  | succ k ih =>
    have hgo : s.step.1 = true := hk 0 (Nat.succ_pos k)
    have hstep : s.step = (true, s.step.2) := Prod.ext hgo rfl
    obtain ⟨-, -, hs⟩ := step_true h.inv hstep
    refine ih ⟨hs.searched.inv, ?_, ?_, ?_⟩ fun i hi => hk (i + 1) (Nat.succ_lt_succ hi)
    · exact hs.plan.conflictLimit_eq.trans (s.planned_limits.2.1.trans h.conflictLimit_eq)
    · exact hs.plan.decisionLimit_eq.trans (s.planned_limits.2.2.trans h.decisionLimit_eq)
    · exact Bool.eq_false_iff.2 fun hi => hs.interrupted hi h.decisionLimit_eq

theorem Unlimited.verdict_ne (h : s.Unlimited) (hstop : s.step.1 = false) : s.step.2.verdict ≠ .unknown := by
  have hstep : s.step = (false, s.step.2) := Prod.ext hstop rfl
  have h1 := step_false h.inv hstep
  have hne : s.status ≠ .unknown := fun hu => h1.limited hu h.interrupted_eq h.conflictLimit_eq
  unfold verdict
  rw [h1.status_eq]
  cases hs : s.status with
  | unknown => exact absurd hs hne
  | sat => exact fun h => nomatch h
  | unsat => exact fun h => nomatch h

end Solver

/-! ## Solve calls -/

variable {counting : Counting} {s : Solver} {f : List (List Lit)}

theorem Call.run_timed (c : Call) (hi : s.Inv) (ht : s.Timed) : (c.run s).Timed := by
  cases c with
  | newVar polarity decision => exact (Solver.allocate_sameTimes s _).timed ht
  | setDecision v decision => exact (Solver.setDecision_sameTimes s v decision).timed ht
  | setFrozen v frozen => exact (Solver.setFrozen_sameTimes s v frozen).timed ht
  | addClause ls => exact (Solver.addClause_sameTimes s ls).timed ht
  | addFormula fml =>
    exact ((Solver.ensureVarCount_sameTimes s fml.varCount).trans (Solver.addClauses_sameTimes _ _)).timed ht
  | configure u => exact Solver.configure_timed ht u
  | setDecisionLimit limit => exact ⟨ht.scale_pos, ht.timely.congr rfl rfl rfl rfl⟩
  | setConflictLimit limit => exact ⟨ht.scale_pos, ht.timely.congr rfl rfl rfl rfl⟩
  | simplify => exact (Solver.simplifyFormula_sameTimes hi false).timed ht
  | eliminate turnOff => exact (Solver.eliminate_sameTimes hi turnOff).timed ht
  | solve => exact Solver.solveWith_timed hi ht false false
  | solveWith simplifyFirst turnOff => exact Solver.solveWith_timed hi ht simplifyFirst turnOff

/-- The schedule keeps to its plan in every state that calls lead to. -/
theorem Reachable.timed (h : Reachable counting s f) : s.Timed := by
  induction h with
  | start => exact ⟨Nat.succ_pos 127, Schedule.timely_start counting⟩
  | call c h ih => exact c.run_timed h.inv ih
  | reset h ih => exact ⟨ih.scale_pos, Schedule.timely_start _⟩

/-- Without limits every solve call ends its search after finitely many steps, and answers that there is a model or that
there is none. -/
theorem unlimited_solve_decides (h : Reachable counting s f) (hc : s.schedule.conflictLimit = none)
    (hd : s.schedule.decisionLimit = none) (simplifyFirst turnOff : Bool) :
    ((s.solveWith simplifyFirst turnOff).1 = .sat ∨ (s.solveWith simplifyFirst turnOff).1 = .unsat) ∧
      ∃ k, (∀ i < k, (Solver.afterSteps i (s.searchStart simplifyFirst turnOff)).step.1 = true) ∧
        (Solver.afterSteps k (s.searchStart simplifyFirst turnOff)).step.1 = false ∧
          s.solveWith simplifyFirst turnOff =
            (Solver.afterSteps k (s.searchStart simplifyFirst turnOff)).step.2.conclude := by
  have hcalled := (Solver.searchStart_called h.inv simplifyFirst turnOff).1
  obtain ⟨htimed, hschedule, hint⟩ := Solver.searchStart_timed h.inv h.timed simplifyFirst turnOff
  rw [Solver.solveWith_eq]
  generalize s.searchStart simplifyFirst turnOff = t at hcalled htimed hschedule hint
  have hun : t.Unlimited :=
    ⟨hcalled.inv, by rw [hschedule]; exact hc, by rw [hschedule]; exact hd, hint⟩
  obtain ⟨m, hm, hhalts⟩ := Solver.haltsWithin_stepBound hcalled.inv htimed
  obtain ⟨k, h1, h2, h3⟩ := hhalts.exists_steps hm
  rw [show t.search = (Solver.afterSteps k t).step.2 from h3]
  refine ⟨?_, k, h1, h2, rfl⟩
  have hv := (hun.afterSteps h1).verdict_ne h2
  show (Solver.afterSteps k t).step.2.verdict = .sat ∨ (Solver.afterSteps k t).step.2.verdict = .unsat
  generalize (Solver.afterSteps k t).step.2.verdict = v at hv
  cases v with
  | sat => exact Or.inl rfl
  | unsat => exact Or.inr rfl
  | unknown => exact absurd rfl hv

theorem unlimited_solve_decides_equivalence :
    (equivalenceSolver.solveWith true false).1 = .sat ∨ (equivalenceSolver.solveWith true false).1 = .unsat :=
  (unlimited_solve_decides reachable_equivalence rfl rfl true false).1

end ClauseLearning
