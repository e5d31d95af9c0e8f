import ClauseLearning.Solver
import ClauseLearning.Proofs.Calls

/-!
# Most operations know nothing of counters and limits

* `Solver.withSchedule` : the same solver with other counters and limits;
* `Solver.learn_withSchedule`, `Solver.eliminate_withSchedule`, … : propagation, facts, decisions, learning and
  simplification do the same with any of them. So they leave them as they are (`Solver.schedule_learn`, …).

Only the loops of the search read the counters, and these loops alone write them.
-/

namespace ClauseLearning

namespace Solver

variable (s : Solver) (c : Schedule)

/-- The same solver with other counters and limits. -/
def withSchedule : Solver := { s with schedule := c }

@[simp] theorem prop_withSchedule : (s.withSchedule c).prop = s.prop := rfl

@[simp] theorem heap_withSchedule : (s.withSchedule c).heap = s.heap := rfl

@[simp] theorem status_withSchedule : (s.withSchedule c).status = s.status := rfl

variable {s c} in
theorem schedule_of_withSchedule {t : Solver} (h : t = t.withSchedule c) : t.schedule = c := by
  rw [h]
  rfl

/-! ## Propagation, facts and decisions -/

theorem backtrack_withSchedule (level : Nat) :
    (s.withSchedule c).backtrack level = (s.backtrack level).withSchedule c := rfl

theorem rewind_withSchedule : (s.withSchedule c).rewind = s.rewind.withSchedule c := rfl

theorem propagate_withSchedule :
    (s.withSchedule c).propagate = (s.propagate.1, s.propagate.2.withSchedule c) := rfl

theorem collectGarbage_withSchedule : (s.withSchedule c).collectGarbage = s.collectGarbage.withSchedule c := by
  dsimp only [collectGarbage, prop_withSchedule]
  split <;> rfl

theorem tidy_withSchedule : (s.withSchedule c).tidy = s.tidy.withSchedule c := by
  unfold tidy
  rw [← collectGarbage_withSchedule, apply_ite (withSchedule · c)]
  rfl

theorem tidyOnLevelZero_withSchedule : (s.withSchedule c).tidyOnLevelZero = s.tidyOnLevelZero.withSchedule c := by
  unfold tidyOnLevelZero
  rw [tidy_withSchedule, apply_ite (withSchedule · c)]
  rfl

theorem makeDecision_withSchedule :
    (s.withSchedule c).makeDecision = (s.makeDecision.1, s.makeDecision.2.withSchedule c) := by
  dsimp only [makeDecision, prop_withSchedule, heap_withSchedule]
  split <;> rfl

theorem schedule_tidyOnLevelZero : s.tidyOnLevelZero.schedule = s.schedule :=
  schedule_of_withSchedule (tidyOnLevelZero_withSchedule s s.schedule)

variable {s} {t : Solver} in
theorem schedule_of_propagate {conflict : Option ClauseRef} (h : s.propagate = (conflict, t)) :
    t.schedule = s.schedule := congrArg (fun out => out.2.schedule) h.symm

variable {s} {t : Solver} in
theorem schedule_of_makeDecision {made : Bool} (h : s.makeDecision = (made, t)) : t.schedule = s.schedule := by
  have hs : s.makeDecision = (s.makeDecision.1, s.makeDecision.2.withSchedule s.schedule) :=
    makeDecision_withSchedule s s.schedule
  rw [h] at hs
  exact schedule_of_withSchedule (Prod.mk.inj hs).2

/-! ## Learning -/

theorem bumpClause_withSchedule (r : ClauseRef) :
    (s.withSchedule c).bumpClause r = (s.bumpClause r).withSchedule c := by
  dsimp only [bumpClause]
  rw [apply_ite (withSchedule · c), apply_ite (withSchedule · c)]
  rfl

theorem decay_withSchedule : (s.withSchedule c).decay = s.decay.withSchedule c := rfl

theorem assertLearned_withSchedule (ls : List Lit) :
    (s.withSchedule c).assertLearned ls = (s.assertLearned ls).withSchedule c := by
  match ls with
  | [] => rfl
  | [_] => rfl
  | _ :: _ :: _ => rfl

theorem learn_withSchedule (r : ClauseRef) : (s.withSchedule c).learn r = (s.learn r).withSchedule c := by
  dsimp only [learn]
  rw [← assertLearned_withSchedule, ← backtrack_withSchedule, ← decay_withSchedule,
    ← List.foldl_hom (withSchedule · c) fun s r => bumpClause_withSchedule s c r]
  rfl

theorem schedule_learn (r : ClauseRef) : (s.learn r).schedule = s.schedule :=
  schedule_of_withSchedule (learn_withSchedule s s.schedule r)

/-! ## Simplification -/

theorem addDerived_withSchedule (o : Occurrences) (ls : List Lit) :
    (s.withSchedule c).addDerived o ls = ((s.addDerived o ls).1, (s.addDerived o ls).2.withSchedule c) := by
  by_cases ht : ls.any s.prop.trail.isTrue = true
  · simp only [addDerived, prop_withSchedule, ht, if_true]
  · simp only [addDerived, prop_withSchedule, ht, Bool.false_eq_true, if_false]
    generalize (ls.filter fun l => !s.prop.trail.isFalse l) = ks
    match ks with
    | [] => rfl
    | [_] => rfl
    | _ :: _ :: _ => rfl

theorem settleFacts_withSchedule :
    (s.withSchedule c).settleFacts = (s.settleFacts.1, s.settleFacts.2.withSchedule c) := by
  unfold settleFacts
  rw [propagate_withSchedule, status_withSchedule]
  generalize s.propagate = out
  obtain ⟨conflict, s₁⟩ := out
  split
  · rfl
  · cases conflict with
    | some r => rfl
    | none =>
      dsimp only
      rw [tidy_withSchedule]

end Solver

/-- The same pass over a solver with other counters and limits. -/
def SubsumptionPass.withSchedule (p : SubsumptionPass) (c : Schedule) : SubsumptionPass :=
  { p with solver := p.solver.withSchedule c }

namespace SubsumptionPass

variable (p : SubsumptionPass) (c : Schedule)

theorem apply_withSchedule (size : Nat) (ref other : ClauseRef) :
    apply size ref (p.withSchedule c) other = (apply size ref p other).withSchedule c := by
  unfold apply
  dsimp only
  rw [apply_ite (withSchedule · c)]
  refine ite_congr rfl (fun _ => rfl) fun _ => ?_
  rw [show relate (p.withSchedule c).solver.litMarks size ((p.withSchedule c).solver.prop.clauses.get other).lits =
    relate p.solver.litMarks size (p.solver.prop.clauses.get other).lits from rfl]
  cases relate p.solver.litMarks size (p.solver.prop.clauses.get other).lits with
  | unrelated => rfl
  | subsumed => rfl
  | strengthened l =>
    have h := Solver.addDerived_withSchedule (p.solver.withClauses (p.solver.prop.clauses.delete other)) c
      p.occurrences ((p.solver.prop.clauses.get other).lits.filter (· != l))
    show ({ solver := (Solver.addDerived _ _ _).2, occurrences := (Solver.addDerived _ _ _).1, count := _ } :
      SubsumptionPass) = _
    exact congrArg (fun out : Occurrences × Solver => (⟨out.2, out.1, _⟩ : SubsumptionPass)) h

theorem useClause_withSchedule (ref : ClauseRef) :
    (p.withSchedule c).useClause ref = (p.useClause ref).withSchedule c := by
  unfold useClause
  dsimp only
  rw [apply_ite (withSchedule · c)]
  refine ite_congr rfl (fun _ => rfl) fun _ => ?_
  have h := @List.foldl_hom _ _ _ (withSchedule · c) _ _
    (partners p.occurrences (p.solver.prop.clauses.get ref).lits)
    { p with
      solver := { p.solver with
        litMarks := p.solver.litMarks.markAll ((p.solver.prop.clauses.get ref).lits.map Lit.code) } }
    fun q => apply_withSchedule q c (p.solver.prop.clauses.get ref).size ref
  exact congrArg (fun q : SubsumptionPass => { q with
    solver := { q.solver with
      litMarks := q.solver.litMarks.unmarkAll ((p.solver.prop.clauses.get ref).lits.map Lit.code) } }) h

end SubsumptionPass

namespace Solver

variable (s : Solver) (c : Schedule)

theorem subsume_withSchedule : (s.withSchedule c).subsume = s.subsume.withSchedule c := by
  have h := @List.foldl_hom _ _ _ (SubsumptionPass.withSchedule · c) _ _ s.buildOccurrences.2.subsumptionCandidates
    { solver := s.buildOccurrences.2, occurrences := s.buildOccurrences.1 } fun p => p.useClause_withSchedule c
  exact congrArg (fun p : SubsumptionPass => p.solver.report (.subsumption p.count.removed p.count.strengthened)) h

theorem resolvents_withSchedule (v : Var) (pos neg : List ClauseRef) : (s.withSchedule c).resolvents? v pos neg =
    ((s.resolvents? v pos neg).1, (s.resolvents? v pos neg).2.withSchedule c) := rfl

theorem eliminateVar_withSchedule (o : Occurrences) (v : Var) : (s.withSchedule c).eliminateVar? o v =
    ((s.eliminateVar? o v).1, (s.eliminateVar? o v).2.1, (s.eliminateVar? o v).2.2.withSchedule c) := by
  have hpairs (f : List (List Lit)) (o : Occurrences) (s : Solver) :
      f.foldl (fun (os : Occurrences × Solver) r => os.2.addDerived os.1 r) (o, s.withSchedule c) =
        (fun os : Occurrences × Solver => (os.1, os.2.withSchedule c))
          (f.foldl (fun (os : Occurrences × Solver) r => os.2.addDerived os.1 r) (o, s)) :=
    @List.foldl_hom _ _ _ (fun os : Occurrences × Solver => (os.1, os.2.withSchedule c)) _ _ f (o, s)
      fun os r => addDerived_withSchedule os.2 c os.1 r
  have hpos : (s.withSchedule c).occurrencesOf o v.positive = s.occurrencesOf o v.positive := rfl
  have hneg : (s.withSchedule c).occurrencesOf o v.negative = s.occurrencesOf o v.negative := rfl
  unfold eliminateVar?
  rw [hpos, hneg]
  generalize s.occurrencesOf o v.positive = pos
  generalize s.occurrencesOf o v.negative = neg
  dsimp only
  rw [resolvents_withSchedule]
  generalize s.resolvents? v pos neg = out
  obtain ⟨found, s₁⟩ := out
  by_cases hgo : pos.length + neg.length = 0 ∨ s.config.elimOccurrenceLimit.toNat < pos.length + neg.length
  · rw [if_pos hgo]
    exact if_pos hgo
  · rw [if_neg hgo]
    refine (if_neg hgo).trans ?_
    cases found with
    | none => rfl
    | some resolvents =>
      have h := hpairs resolvents o
        (({ s₁ with witnesses := s₁.witness v pos neg :: s₁.witnesses } : Solver).withClauses
          ((pos ++ neg).foldl Database.delete s₁.prop.clauses))
      exact congrArg (fun out : Occurrences × Solver =>
        (true, out.1, { out.2.modifyVariable v ({ · with eliminated := true }) with
          heap := out.2.heap.setEnabled v false })) h

theorem eliminateList_withSchedule (vs : List Var) (count : Nat) (o : Occurrences) :
    eliminateList vs count o (s.withSchedule c) =
      ((eliminateList vs count o s).1, (eliminateList vs count o s).2.withSchedule c) := by
  induction vs generalizing count o s with
  | nil => rfl
  | cons v vs ih =>
    rw [eliminateList, eliminateList, status_withSchedule, prop_withSchedule]
    split
    · rfl
    · split
      · exact ih _ _ _
      · rw [eliminateVar_withSchedule]
        exact ih _ _ _

theorem eliminateVars_withSchedule : (s.withSchedule c).eliminateVars = s.eliminateVars.withSchedule c := by
  have h := eliminateList_withSchedule s.buildOccurrences.2 c
    (s.buildOccurrences.2.eliminationCandidates s.buildOccurrences.1) 0 s.buildOccurrences.1
  exact congrArg (fun out : Nat × Solver =>
    out.2.dropLearnedWithEliminated.report (.elimination out.1 out.2.dropLearnedWithEliminated.witnesses.length)) h

theorem simplifyFormula_withSchedule (eliminate : Bool) :
    (s.withSchedule c).simplifyFormula eliminate = (s.simplifyFormula eliminate).withSchedule c := by
  unfold simplifyFormula
  rw [settleFacts_withSchedule]
  generalize s.settleFacts = out
  obtain ⟨goOn, s₁⟩ := out
  cases goOn with
  | false => rfl
  | true =>
    dsimp only
    rw [subsume_withSchedule, settleFacts_withSchedule]
    generalize s₁.subsume.settleFacts = out
    obtain ⟨goOn, s₂⟩ := out
    cases goOn with
    | false => rfl
    | true =>
      dsimp only
      rw [eliminateVars_withSchedule, settleFacts_withSchedule, apply_ite (withSchedule · c)]
      rfl

theorem eliminate_withSchedule (turnOff : Bool) :
    (s.withSchedule c).eliminate turnOff = ((s.eliminate turnOff).1, (s.eliminate turnOff).2.withSchedule c) := by
  unfold eliminate
  rw [rewind_withSchedule, simplifyFormula_withSchedule]
  cases turnOff <;> rfl

theorem searchStart_withSchedule (simplifyFirst turnOff : Bool) : (s.withSchedule c).searchStart simplifyFirst turnOff =
    (s.searchStart simplifyFirst turnOff).withSchedule c.startSearch := by
  unfold searchStart
  cases simplifyFirst with
  | false => rfl
  | true =>
    rw [if_pos rfl, if_pos rfl, eliminate_withSchedule]
    rfl

end Solver

end ClauseLearning
