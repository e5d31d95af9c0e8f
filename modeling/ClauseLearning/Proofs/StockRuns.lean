import ClauseLearning.Proofs.Moments
import ClauseLearning.Proofs.Settings
import ClauseLearning.Proofs.StockSteps

/-!
# The steps of searches and calls

* `Solver.lesson_involved` : no clause that takes part in a conflict is deleted, so it can move to another tier, and all
  its literals are assigned;
* `Solver.step_steps`, `Solver.searchFuel_steps` : what a search does to the stock of clauses;
* `Call.run_steps`, `Reachable.steps`, `Moment.steps` : at every moment of a run, the clauses come from the empty stock
  by the steps of `Stock.Step`.
-/

namespace ClauseLearning

open Stock (Steps)

/-! ## Conflicts -/

namespace Analysis

variable {p : Propagator} {n i : Nat} {l : Lit} {a : Analysis}

theorem involved_addLits (t : Trail) (a : Analysis) (ls : List Lit) : (addLits t a ls).involved = a.involved := by
  induction ls generalizing a with
  | nil => rfl
  | cons l ls ih =>
    have h1 : (addLit t a l).involved = a.involved := by
      unfold addLit
      dsimp only
      split
      · split <;> rfl
      · rfl
    exact (ih (addLit t a l)).trans h1

/-- The clauses that were resolved are not deleted, and all their literals are assigned. -/
def InvolvesAssigned (p : Propagator) (a : Analysis) : Prop :=
  ∀ r ∈ a.involved, p.clauses.isLive r ∧ ∀ l ∈ (p.clauses.get r).lits, p.trail.isAssigned l.var

theorem InvolvesAssigned.addLits {ls : List Lit} (h : InvolvesAssigned p a) :
    InvolvesAssigned p (addLits p.trail a ls) := by
  unfold InvolvesAssigned
  rw [involved_addLits]
  exact h

theorem InvolvesAssigned.resolve (h : InvolvesAssigned p a) (hp : p.Linked n) (hi : p.trail.At i l) :
    InvolvesAssigned p (resolve p a l.var) := by
  unfold Analysis.resolve
  split
  · exact h
  · next r hr =>
    obtain ⟨hlive, hfirst, hrest⟩ := hp.clause_reason hi hr
    refine addLits fun q hq => ?_
    rcases Array.mem_push.1 hq with hq | rfl
    · exact h q hq
    · refine ⟨hlive, fun x hx => ?_⟩
      rcases List.mem_cons.1 hx with rfl | hx
      · exact hfirst ▸ Trail.isAssigned_of_isTrue (hp.trail.isTrue hi)
      · obtain ⟨j, -, hj⟩ := hrest x hx
        exact Trail.isAssigned_of_isFalse (Trail.isFalse_iff_neg.2 (hp.trail.isTrue hj))

theorem InvolvesAssigned.walk (h : InvolvesAssigned p a) (hp : p.Linked n) (k : Nat) :
    InvolvesAssigned p (walk p k a).2 := by
  induction k generalizing a with
  | zero => exact h
  | succ k ih =>
    rw [Analysis.walk]
    split
    · exact ih h
    · next l hl =>
      dsimp only
      split
      · split
        · exact h
        · exact ih (resolve (a := { a with marks := _, openCount := _ }) h hp hl)
      · exact ih h

end Analysis

namespace Solver

variable {s t u : Solver} {r : ClauseRef}

theorem lesson_involved (h : s.Inv) (hc : s.prop.Conflict r) : ∀ q ∈ (s.lesson r).involved,
    s.prop.clauses.isLive q ∧ ∀ l ∈ (s.prop.clauses.get q).lits, s.prop.trail.isAssigned l.var := by
  intro q hq
  unfold lesson analyze at hq
  split at hq
  · exact absurd hq List.not_mem_nil
  · dsimp only at hq
    have hstart : Analysis.InvolvesAssigned s.prop
        { marks := s.varMarks.marks, toClean := s.varMarks.toClean, heap := s.heap, involved := #[r] } := by
      intro q hq
      obtain rfl := List.mem_singleton.1 (Array.mem_toList_iff.2 hq)
      exact ⟨hc.isLive, fun l hl => Trail.isAssigned_of_isFalse (hc.isFalse hl)⟩
    exact (hstart.addLits.walk h.prop.toLinked _) q (Array.mem_toList_iff.1 hq)

theorem regrade_steps {d : Database} (a : ActivityScale) (hr : d.isLive r) (hl : (d.get r).learned) (g : Nat) :
    Steps ⟨d, a⟩ ⟨if g < (d.get r).glue then
        ((d.modify r ({ · with active := true })).modify r ({ · with glue := Clause.storedGlue g })).setTier r
          (Tier.ofGlue g)
      else d.modify r ({ · with active := true }), a⟩ := by
  have h1 : Steps ⟨d, a⟩ ⟨d.modify r ({ · with active := true }), a⟩ := .edit (.activate hr)
  split
  · next hg =>
    have hget : (d.modify r ({ · with active := true })).get r = { d.get r with active := true } :=
      Database.get_modify_self hr
    refine h1.trans (.edit (.regrade ?_ ?_ ?_))
    · rw [Database.isLive, hget]
      exact hr
    · rw [hget]
      exact hl
    · rw [hget]
      exact hg
  · exact h1

/-- A clause that is bumped may be graded anew. No clause is deleted. -/
theorem bumpClause_steps (s : Solver) (hr : s.prop.clauses.isLive r) :
    s.stock.Steps (s.bumpClause r).stock ∧
      Database.Pruned (fun _ => True) s.prop.clauses (s.bumpClause r).prop.clauses := by
  have hc1 : s.stock.Steps ⟨(s.prop.clauses.bumpActivity s.clauseScale r).1,
    (s.prop.clauses.bumpActivity s.clauseScale r).2⟩ := .edit .bump
  have hp1 : Database.Pruned (fun _ => True) s.prop.clauses (s.prop.clauses.bumpActivity s.clauseScale r).1 :=
    .bumpActivity s.prop.clauses s.clauseScale r
  have hite (c : Prop) [Decidable c] (t : Solver) (d e : Database) :
      (if c then t.withClauses d else t.withClauses e) = t.withClauses (if c then d else e) := by
    split <;> rfl
  dsimp only [bumpClause]
  split
  · next hl =>
    rw [hite]
    exact ⟨hc1.trans (regrade_steps _ (hp1.kept hr (Or.inr trivial)) hl _), hp1.trans (pruned_regrade r hl _ _)⟩
  · exact ⟨hc1, hp1⟩

theorem foldl_bumpClause_steps (rs : List ClauseRef) (s : Solver) (hl : ∀ r ∈ rs, s.prop.clauses.isLive r) :
    s.stock.Steps (rs.foldl bumpClause s).stock := by
  induction rs generalizing s with
  | nil => exact .refl _
  | cons r rs ih =>
    obtain ⟨h1, h2⟩ := bumpClause_steps s (hl r List.mem_cons_self)
    exact h1.trans (ih _ fun q hq => h2.kept (hl q (List.mem_cons_of_mem r hq)) (Or.inr trivial))

theorem assertLearned_steps (s : Solver) (ls : List Lit) :
    s.stock.Steps (s.assertLearned ls).stock := by
  match ls with
  | [] => exact .refl _
  | [_] => exact .refl _
  | _ :: _ :: _ =>
    exact .edit (.add ⟨rfl, rfl, rfl, Or.inr (Clause.ofGlue_storedGlue _).symm, Clause.storedGlue_le_maxGlue _⟩)

theorem decay_steps (s : Solver) : s.stock.Steps s.decay.stock := .edit .decay

theorem learn_steps (h : s.Inv) (hc : s.prop.Conflict r) :
    s.stock.Steps (s.learn r).stock := by
  have hl := lesson_involved h hc
  dsimp only [lesson] at hl
  dsimp only [learn]
  generalize analyze s.prop s.heap s.varMarks r = out at hl
  obtain ⟨lesson, heap, marks⟩ := out
  have h1 := foldl_bumpClause_steps lesson.involved
    ({ s with heap := heap, varMarks := marks }.report (.learned s.currentLevel lesson.clause lesson.backtrackTo))
    fun q hq => (hl q hq).1
  exact (h1.trans (decay_steps _)).trans (assertLearned_steps (backtrack (decay _) lesson.backtrackTo) lesson.clause)

/-! ## Steps -/

theorem tidyOnLevelZero_steps (s : Solver) : s.stock.Steps s.tidyOnLevelZero.stock := by
  unfold tidyOnLevelZero
  split
  · exact (tidy_steps s).trans (s.tidy.prop.enableWatches_steps s.tidy.clauseScale)
  · exact .refl _

theorem stock_makeDecision (s : Solver) : s.makeDecision.2.stock = s.stock := by
  unfold makeDecision
  dsimp only
  split <;> rfl

theorem findConflictFuel_steps (fuel : Nat) (s : Solver) :
    s.stock.Steps (findConflictFuel fuel s).2.stock := by
  induction fuel generalizing s with
  | zero => exact .refl _
  | succ fuel ih =>
    have h1 := propagate_steps s
    rw [findConflictFuel]
    generalize s.propagate = out at h1
    obtain ⟨conflict, t⟩ := out
    cases conflict with
    | some r => exact h1
    | none =>
      have h2 := h1.trans (tidyOnLevelZero_steps t)
      dsimp only
      split
      · exact h2
      · have h3 := stock_makeDecision t.tidyOnLevelZero
        generalize t.tidyOnLevelZero.makeDecision = out at h3
        obtain ⟨found, u⟩ := out
        rw [← h3] at h2
        cases found with
        | false => exact h2
        | true => exact h2.trans (ih { u with schedule := u.schedule.countDecision })

theorem conflictStep_steps (h : s.Inv) : s.stock.Steps s.conflictStep.stock := by
  have h1 : s.stock.Steps s.findConflict.2.stock := findConflictFuel_steps _ s
  have hf := findConflict_spec h
  unfold conflictStep
  generalize s.findConflict = out at h1 hf
  obtain ⟨outcome, t⟩ := out
  cases outcome with
  | model => exact h1
  | interrupted => exact h1
  | conflict r =>
    have hi : ({ t with schedule := t.schedule.countConflict } : Solver).Inv :=
      hf.searched.inv.of_core rfl
    have hc : t.prop.Conflict r := hf.conflict rfl
    have h2 := learn_steps hi hc
    exact h1.trans h2

theorem stock_restartIfDue (s : Solver) : s.restartIfDue.stock = s.stock := by
  unfold restartIfDue
  dsimp only
  split
  · split <;> rfl
  · rfl

theorem reduceIfDue_steps (s : Solver) : s.stock.Steps s.reduceIfDue.stock := by
  have hlocals (b : Bool) : s.stock.Steps (if b then
      { s with prop := (s.prop.reduceLocals s.ties).2 }.report (s.prop.reduceLocals s.ties).1 else s).stock := by
    split
    · exact .edit (.reduceLocals s.ties)
    · exact .refl _
  have hmids (t : Solver) (b : Bool) : t.stock.Steps
      (if b then { t with prop := t.prop.reduceMids.2 }.report t.prop.reduceMids.1 else t).stock := by
    split
    · exact .edit .reduceMids
    · exact .refl _
  exact (hlocals _).trans (hmids _ _)

theorem step_steps (h : s.Inv) : s.stock.Steps s.step.2.stock := by
  unfold step
  split
  · exact .refl _
  · split
    · exact .refl _
    · have h1 := reduceIfDue_steps s.restartIfDue
      rw [stock_restartIfDue] at h1
      exact h1.trans (conflictStep_steps (reduceIfDue_restartIfDue_searched h).inv)

theorem searchFuel_steps (fuel : Nat) (h : s.Inv) : s.stock.Steps (searchFuel fuel s).stock := by
  induction fuel generalizing s with
  | zero => exact .refl _
  | succ fuel ih =>
    have h1 := step_steps h
    rw [searchFuel]
    cases hstep : s.step with
    | mk goOn t =>
      rw [hstep] at h1
      cases goOn with
      | true => exact h1.trans (ih (step_true h hstep).2.2.searched.inv)
      | false => exact h1

/-! ## Calls -/

theorem stock_ensureVarCount (s : Solver) (count : Nat) : (s.ensureVarCount count).stock = s.stock :=
  ensureVarCount_keeps (P := fun t => t.stock = s.stock) rfl (fun _ ht => ht) count

theorem load_steps (s : Solver) (ls : List Lit) : s.stock.Steps (s.load ls).stock := by
  unfold load
  split
  · exact .refl _
  · dsimp only
    split
    · exact .refl _
    · split
      · exact .refl _
      · exact .refl _
      · exact .edit (.add ⟨rfl, rfl, rfl, Or.inl rfl, Nat.zero_le _⟩)

theorem propagateFacts_steps (s : Solver) : s.stock.Steps s.propagateFacts.stock := by
  unfold propagateFacts
  split
  · exact .refl _
  · have h1 := propagate_steps s
    generalize s.propagate = out at h1
    obtain ⟨conflict, t⟩ := out
    cases conflict <;> exact h1

theorem addClause_steps (s : Solver) (ls : List Lit) : s.stock.Steps (s.addClause ls).2.stock := by
  unfold addClause
  split
  · exact .refl _
  · exact (load_steps s ls).trans (propagateFacts_steps _)

theorem addClauses_steps (cs : List (List Lit)) (s : Solver) :
    s.stock.Steps (addClauses cs s).2.stock := by
  induction cs generalizing s with
  | nil => exact .refl _
  | cons c cs ih =>
    have h1 := addClause_steps s c
    rw [addClauses]
    generalize s.addClause c = out at h1
    obtain ⟨answer, t⟩ := out
    cases answer with
    | error e => exact h1
    | ok b => exact h1.trans (ih t)

theorem eliminate_steps (h : s.Inv) (turnOff : Bool) :
    s.stock.Steps (s.eliminate turnOff).2.stock := by
  have h1 := simplifyFormula_steps (rewind_searched h).inv (currentLevel_rewind s) true
  cases turnOff <;> exact h1

theorem searchStart_steps (h : s.Inv) (simplifyFirst turnOff : Bool) :
    s.stock.Steps (s.searchStart simplifyFirst turnOff).stock := by
  cases simplifyFirst with
  | false => exact .refl _
  | true => exact eliminate_steps h turnOff

theorem stock_conclude (s : Solver) : s.conclude.2.stock = s.stock := by
  unfold conclude
  dsimp only
  split <;> rfl

theorem solveWith_steps (h : s.Inv) (simplifyFirst turnOff : Bool) :
    s.stock.Steps (s.solveWith simplifyFirst turnOff).2.stock := by
  have h1 := searchStart_steps h simplifyFirst turnOff
  have h2 := searchFuel_steps (s.searchStart simplifyFirst turnOff).stepBound
    (searchStart_called h simplifyFirst turnOff).1.inv
  rw [solveWith_eq, stock_conclude]
  exact h1.trans h2

end Solver

variable {counting : Counting} {s t : Solver} {f : List (List Lit)}

theorem Call.run_steps (c : Call) (h : s.Inv) (ha : s.config.Accepted) : s.stock.Steps (c.run s).stock := by
  cases c with
  | newVar polarity decision => exact .refl _
  | setDecision v decision =>
    show s.stock.Steps (s.setDecision v decision).2.stock
    unfold Solver.setDecision
    split <;> exact .refl _
  | setFrozen v frozen =>
    show s.stock.Steps (s.setFrozen v frozen).2.stock
    unfold Solver.setFrozen
    split <;> exact .refl _
  | addClause ls => exact s.addClause_steps ls
  | addFormula fml =>
    have h1 := Solver.addClauses_steps fml.clauses.toList (s.ensureVarCount fml.varCount)
    rwa [Solver.stock_ensureVarCount] at h1
  | configure u =>
    show s.stock.Steps (s.configure u).2.stock
    unfold Solver.configure
    cases hu : u.apply s.config with
    | error err => exact .refl _
    | ok config => exact .edit (.configure (ha.apply hu).clauseActivityDecay)
  | setDecisionLimit limit => exact .refl _
  | setConflictLimit limit => exact .refl _
  | simplify =>
    exact Solver.simplifyFormula_steps (Solver.rewind_searched h).inv (Solver.currentLevel_rewind s) false
  | eliminate turnOff => exact Solver.eliminate_steps h turnOff
  | solve => exact Solver.solveWith_steps h false false
  | solveWith simplifyFirst turnOff => exact Solver.solveWith_steps h simplifyFirst turnOff

theorem Reachable.steps (h : Reachable counting s f) : Steps {} s.stock := by
  induction h with
  | start => exact .refl _
  | call c h ih => exact ih.trans (c.run_steps h.inv h.settings.1)
  | reset h _ => exact .edit (.configure h.settings.1.clauseActivityDecay)

/-! ## Moments -/

theorem Solver.Simplifying.steps {eliminate : Bool} (h : s.Inv) (h0 : s.prop.trail.currentLevel = 0)
    (ht : s.Simplifying eliminate t) : s.stock.Steps t.stock := by
  cases ht with
  | start => exact .refl _
  | subsumed h1 =>
    have hc := settleFacts_steps s
    rw [h1] at hc
    exact hc.trans (subsume_steps _)
  | eliminated h1 h2 _ =>
    obtain ⟨hi, -, hidle⟩ := resettled_spec h h0 h1 h2
    have hc1 := settleFacts_steps s
    rw [h1] at hc1
    have hc2 := hc1.trans ((subsume_steps _).trans (settleFacts_steps _))
    rw [h2] at hc2
    exact hc2.trans (eliminateVars_steps hi hidle)

theorem Solver.Searching.steps (h : s.Inv) (ht : s.Searching t) : s.stock.Steps t.stock := by
  induction ht with
  | start => exact .refl _
  | step ht hstep ih =>
    have h1 := step_steps (ht.searched h).inv
    rw [hstep] at h1
    exact ih.trans h1

theorem Solver.Searching.steps_searchStart {simplifyFirst turnOff : Bool} (h : s.Inv)
    (ht : (s.searchStart simplifyFirst turnOff).Searching t) : s.stock.Steps t.stock := by
  have h1 := (searchStart_called h simplifyFirst turnOff).1
  exact (searchStart_steps h simplifyFirst turnOff).trans (ht.steps h1.inv)

theorem Solver.Deciding.steps (ht : s.Deciding t) : s.stock.Steps t.stock := by
  induction ht with
  | start => exact .refl _
  | @decision t u v _ hp _ hd ih =>
    have h1 := propagate_steps t
    have h3 := stock_makeDecision u.tidyOnLevelZero
    rw [hp] at h1
    rw [hd] at h3
    have h2 := h1.trans (tidyOnLevelZero_steps u)
    rw [← h3] at h2
    exact ih.trans h2

/-- The clauses of a run come from the empty stock by its steps. -/
theorem Moment.steps (h : Moment counting s) : Steps {} s.stock := by
  cases h with
  | call h => exact h.steps
  | @load s t _ cs n ls h ht hc =>
    have h1 := Solver.addClauses_steps cs (s.ensureVarCount n)
    rw [Solver.stock_ensureVarCount, ht] at h1
    exact (h.steps.trans h1).trans (t.load_steps ls)
  | simplify h ht =>
    have h1 := ht.steps (Solver.rewind_searched h.inv).inv (Solver.currentLevel_rewind _)
    exact h.steps.trans h1
  | search h ht => exact h.steps.trans (ht.steps_searchStart h.inv)
  | @decide _ t _ _ _ _ h ht _ hu =>
    have h1 := t.restartIfDue.reduceIfDue_steps
    rw [Solver.stock_restartIfDue] at h1
    exact ((h.steps.trans (ht.steps_searchStart h.inv)).trans h1).trans hu.steps

end ClauseLearning
