import ClauseLearning.Proofs.Limits

/-!
# The steps of a run

A run is some calls in turn. Its solve calls search, one step after the other, and what happens between their steps
counts no conflicts and plans no restarts.

* `Solver.steps`, `Call.steps`, `Call.stepsAll` : the states in which the steps of a search, of a call and of some calls
  begin, in order;
* `Schedule.SameRestarts` : the same counts of conflicts and restarts, and the same plan for restarts;
* `Solver.Course` : the steps on the way from one state to another. `Reachable.course` is the course of a run, and
  results about runs are inductions over it;
* `Solver.Course.pairwise_le`, `Solver.Course.exists_conflicts` : along a course the count of conflicts grows, and it
  skips no number.
-/

namespace ClauseLearning

namespace Schedule

variable {a b c : Schedule}

/-- The same counts of conflicts and restarts, and the same plan for restarts. -/
structure SameRestarts (a b : Schedule) : Prop where
  conflicts_eq : b.conflicts = a.conflicts
  restarts_eq : b.restarts = a.restarts
  nextRestart_eq : b.nextRestart = a.nextRestart
  luby_eq : b.luby = a.luby
  counting_eq : b.counting = a.counting

theorem SameRestarts.refl (a : Schedule) : SameRestarts a a := ⟨rfl, rfl, rfl, rfl, rfl⟩

theorem SameRestarts.of_eq (h : b = a) : SameRestarts a b := h ▸ SameRestarts.refl a

theorem SameRestarts.trans (h : SameRestarts a b) (h' : SameRestarts b c) : SameRestarts a c :=
  ⟨h'.conflicts_eq.trans h.conflicts_eq, h'.restarts_eq.trans h.restarts_eq, h'.nextRestart_eq.trans h.nextRestart_eq,
    h'.luby_eq.trans h.luby_eq, h'.counting_eq.trans h.counting_eq⟩

end Schedule

open Schedule (SameRestarts)

/-! ## Steps -/

namespace Solver

/-- The states in which up to `fuel` steps begin. -/
def stepsFuel : Nat → Solver → List Solver
  | 0, _ => []
  | fuel + 1, s =>
    match s.step with
    | (true, t) => s :: stepsFuel fuel t
    | (false, _) => []

/-- The states in which the steps of a search begin, in order. -/
def steps (s : Solver) : List Solver := stepsFuel s.stepBound s

theorem stepsFuel_succ (fuel : Nat) (s : Solver) :
    stepsFuel (fuel + 1) s = if s.step.1 then s :: stepsFuel fuel s.step.2 else [] := by
  rw [stepsFuel]
  cases s.step with
  | mk goOn t => cases goOn <;> rfl

theorem step_of_mem_stepsFuel {s t : Solver} {fuel : Nat} (ht : t ∈ stepsFuel fuel s) : s.step.1 = true := by
  cases fuel with
  | zero => cases ht
  | succ fuel =>
    rw [stepsFuel_succ] at ht
    split at ht
    · next hgo => exact hgo
    · cases ht

theorem stepsFuel_pairwise (fuel : Nat) (s : Solver) :
    (stepsFuel fuel s).Pairwise fun t _ => t.step.2.step.1 = true := by
  induction fuel generalizing s with
  | zero => exact .nil
  | succ fuel ih =>
    rw [stepsFuel_succ]
    split
    · exact .cons (fun _ ht => step_of_mem_stepsFuel ht) (ih s.step.2)
    · exact .nil

end Solver

namespace Call

/-- The states in which the steps of a call begin, in order. Just solve calls make steps. -/
def steps (s : Solver) : Call → List Solver
  | solve => (s.searchStart false false).steps
  | solveWith simplifyFirst turnOff => (s.searchStart simplifyFirst turnOff).steps
  | _ => []

/-- The states in which the steps of some calls begin, in order. -/
def stepsAll : Solver → List Call → List Solver
  | _, [] => []
  | s, c :: cs => c.steps s ++ stepsAll (c.run s) cs

theorem steps_pairwise (s : Solver) (c : Call) : (c.steps s).Pairwise fun t _ => t.step.2.step.1 = true := by
  cases c with
  | solve => exact Solver.stepsFuel_pairwise _ _
  | solveWith => exact Solver.stepsFuel_pairwise _ _
  | _ => exact .nil

theorem mem_stepsAll {s t : Solver} {before after : List Call} {c : Call} (ht : t ∈ c.steps (runAll s before)) :
    t ∈ stepsAll s (before ++ c :: after) := by
  induction before generalizing s with
  | nil => exact List.mem_append_left _ ht
  | cons d before ih => exact List.mem_append_right _ (ih ht)

end Call

namespace Solver

variable {s s' t u : Solver} {ts us : List Solver} {n : Nat}

/-- A state in which a step begins. -/
structure Stepping (t : Solver) : Prop where
  inv : t.Inv
  timed : t.Timed
  goesOn : t.step.1 = true

/-- The plan for restarts is looked at once in a step. After that, one conflict is counted at most. A step without one
is the last of its search. -/
theorem Stepping.schedule_step (h : t.Stepping) : ∃ d c, c ≤ 1 ∧ t.step.2.schedule = t.planned.later d c ∧
    (c = 0 → t.step.2.step.1 = false) := by
  obtain ⟨d, c, hc, hs, hover⟩ := t.restartIfDue.reduceIfDue.schedule_conflictStep
  have hplan := (reduceIfDue_bumped (restartIfDue_spec h.inv).1.inv).2.trans (restartIfDue_spec h.inv).2.1
  rw [step_eq_conflictStep h.goesOn]
  refine ⟨d, c, hc, hplan ▸ hs, fun h0 => ?_⟩
  have hstop : t.restartIfDue.reduceIfDue.conflictStep.status ≠ .unknown ∨
      t.restartIfDue.reduceIfDue.conflictStep.interrupted = true :=
    (hover h0).imp_left fun hsat hu => nomatch hsat.symm.trans hu
  dsimp only
  rw [step, if_pos hstop]

theorem Stepping.conflicts_step (h : t.Stepping) : t.step.2.schedule.conflicts = t.schedule.conflicts + 1 ∨
    t.step.2.schedule.conflicts = t.schedule.conflicts ∧ t.step.2.step.1 = false := by
  obtain ⟨d, c, hc, hs, hover⟩ := h.schedule_step
  have hcount : t.step.2.schedule.conflicts = t.schedule.conflicts + c := by
    rw [hs, ← t.planned_limits.1]
    rfl
  rcases Nat.le_one_iff_eq_zero_or_eq_one.1 hc with rfl | rfl
  · exact Or.inr ⟨hcount, hover rfl⟩
  · exact Or.inl hcount

/-! ## Courses -/

/-- On the way from one state to another some steps are made, one after the other. -/
inductive Course : Solver → List Solver → Solver → Prop
  | rest {s s' : Solver} : SameRestarts s.schedule s'.schedule → Course s [] s'
  | step {s t s' : Solver} {ts : List Solver} : SameRestarts s.schedule t.schedule → t.Stepping →
    Course t.step.2 ts s' → Course s (t :: ts) s'

namespace Course

theorem after (h : SameRestarts s.schedule t.schedule) (hc : Course t ts u) : Course s ts u := by
  cases hc with
  | rest h' => exact .rest (h.trans h')
  | step h' ht hc => exact .step (h.trans h') ht hc

theorem append (h : Course s ts t) (h' : Course t us u) : Course s (ts ++ us) u := by
  induction h with
  | rest hs => exact h'.after hs
  | step hs ht _ ih => exact .step hs ht (ih h')

theorem before (hc : Course s ts t) (h : SameRestarts t.schedule u.schedule) : Course s ts u := by
  rw [← List.append_nil ts]
  exact hc.append (.rest h)

theorem stepping (h : Course s ts s') : ∀ t ∈ ts, t.Stepping := by
  induction h with
  | rest => exact fun t ht => nomatch ht
  | step _ ht _ ih => exact List.forall_mem_cons.2 ⟨ht, ih⟩

theorem conflicts_le (h : Course s ts s') : s.schedule.conflicts ≤ s'.schedule.conflicts ∧
    ∀ t ∈ ts, s.schedule.conflicts ≤ t.schedule.conflicts := by
  induction h with
  | rest hs => exact ⟨Nat.le_of_eq hs.conflicts_eq.symm, fun t ht => nomatch ht⟩
  | @step s t _ _ hs ht _ ih =>
    have hstep : t.schedule.conflicts ≤ t.step.2.schedule.conflicts := by
      rcases ht.conflicts_step with hc | ⟨hc, -⟩ <;> omega
    have hle : s.schedule.conflicts ≤ t.schedule.conflicts := Nat.le_of_eq hs.conflicts_eq.symm
    exact ⟨by omega, List.forall_mem_cons.2 ⟨hle, fun u hu => by have := ih.2 u hu; omega⟩⟩

/-- A step begins with no less conflicts than those before it ended with. -/
theorem pairwise_le (h : Course s ts s') :
    ts.Pairwise fun t u => t.step.2.schedule.conflicts ≤ u.schedule.conflicts := by
  induction h with
  | rest => exact .nil
  | step _ _ hc ih => exact .cons hc.conflicts_le.2 ih

/-- No number of conflicts is skipped. -/
theorem exists_conflicts (h : Course s ts s') (hs : s.schedule.conflicts ≤ n) (hu : u ∈ ts)
    (hn : n ≤ u.schedule.conflicts) : ∃ t ∈ ts, t.schedule.conflicts = n := by
  induction h with
  | rest => cases hu
  | @step s t _ _ hsame ht hc ih =>
    have hst := hsame.conflicts_eq
    by_cases heq : t.schedule.conflicts = n
    · exact ⟨t, List.mem_cons_self, heq⟩
    · -- the number comes later, and the step goes up by one at most
      have hlt : t.step.2.schedule.conflicts ≤ n := by
        rcases ht.conflicts_step with hc | ⟨hc, -⟩ <;> omega
      rcases List.mem_cons.1 hu with rfl | hu
      · omega
      · obtain ⟨v, hv, hvn⟩ := ih hlt hu
        exact ⟨v, List.mem_cons_of_mem t hv, hvn⟩

end Course

/-! ## The course of a run -/

theorem searchFuel_course {fuel : Nat} (h : s.Inv) (ht : s.Timed) :
    Course s (stepsFuel fuel s) (searchFuel fuel s) := by
  induction fuel generalizing s with
  | zero => exact .rest (.refl _)
  | succ fuel ih =>
    rw [stepsFuel_succ, searchFuel]
    cases hstep : s.step with
    | mk goOn t =>
      cases goOn with
      | false => exact .rest (.of_eq (step_false h hstep).schedule_eq)
      | true =>
        obtain ⟨-, -, hs⟩ := step_true h hstep
        refine .step (.refl _) ⟨h, ht, by rw [hstep]⟩ ?_
        rw [hstep]
        exact ih hs.searched.inv (hs.timed ht)

theorem solveWith_course (h : s.Inv) (ht : s.Timed) (simplifyFirst turnOff : Bool) :
    Course s (s.searchStart simplifyFirst turnOff).steps (s.solveWith simplifyFirst turnOff).2 := by
  have hi := (searchStart_called h simplifyFirst turnOff).1.inv
  obtain ⟨ht', hs, -⟩ := searchStart_timed h ht simplifyFirst turnOff
  have hstart : SameRestarts s.schedule (s.searchStart simplifyFirst turnOff).schedule := by
    rw [hs]
    exact ⟨rfl, rfl, rfl, rfl, rfl⟩
  rw [solveWith_eq]
  exact ((searchFuel_course hi ht').before (.of_eq (conclude_sameTimes _).schedule_eq)).after hstart

theorem schedule_configure (s : Solver) (u : ConfigUpdate) : (s.configure u).2.schedule = s.schedule := by
  unfold configure
  split <;> rfl

end Solver

open Solver (Course)

variable {counting : Counting} {s : Solver} {f : List (List Lit)}

theorem Call.course (c : Call) (hi : s.Inv) (ht : s.Timed) : Course s (c.steps s) (c.run s) := by
  have hrest {t : Solver} (h : Solver.SameTimes s t) : Course s [] t := .rest (.of_eq h.schedule_eq)
  cases c with
  | newVar polarity decision => exact hrest (Solver.allocate_sameTimes s _)
  | setDecision v decision => exact hrest (Solver.setDecision_sameTimes s v decision)
  | setFrozen v frozen => exact hrest (Solver.setFrozen_sameTimes s v frozen)
  | addClause ls => exact hrest (Solver.addClause_sameTimes s ls)
  | addFormula fml =>
    exact hrest ((Solver.ensureVarCount_sameTimes s fml.varCount).trans (Solver.addClauses_sameTimes _ _))
  | configure u => exact .rest (.of_eq (s.schedule_configure u))
  | setDecisionLimit limit => exact .rest ⟨rfl, rfl, rfl, rfl, rfl⟩
  | setConflictLimit limit => exact .rest ⟨rfl, rfl, rfl, rfl, rfl⟩
  | simplify => exact hrest (Solver.simplifyFormula_sameTimes hi false)
  | eliminate turnOff => exact hrest (Solver.eliminate_sameTimes hi turnOff)
  | solve => exact Solver.solveWith_course hi ht false false
  | solveWith simplifyFirst turnOff => exact Solver.solveWith_course hi ht simplifyFirst turnOff

/-- The course of a run. -/
theorem Reachable.course (h : Reachable counting s f) (cs : List Call) :
    Course s (Call.stepsAll s cs) (Call.runAll s cs) := by
  induction cs generalizing s f with
  | nil => exact .rest (.refl _)
  | cons c cs ih => exact (c.course h.inv h.timed).append (ih (h.call c))

end ClauseLearning
