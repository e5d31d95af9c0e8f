import ClauseLearning.Proofs.Session

/-!
# What answers mean

For every state that calls lead to (`Solver.solve` is `Solver.solveWith` without simplification):

* `solveWith_model_satisfies` : a model that a solve call finds gives every variable a value and satisfies every
  accepted clause;
* `unsat_is_final` : without a model that a solve call could find there is none, and that stays so until the next reset;
* `stored_formula_equivalent` : the facts and the stored clauses say the same as the accepted clauses, up to the values
  of eliminated variables.
-/

namespace ClauseLearning

variable {counting : Counting} {s t : Solver} {f : List (List Lit)} {v : Var} {l : Lit}

/-! ## Models -/

theorem Solver.valued_trail (h : t.Inv) (ha : ∀ v, t.heap.isEnabled v → t.prop.trail.isAssigned v)
    (hd : ∀ v : Var, v.index < t.varCount → t.hasEliminated v = false → (infoOf t.vars v).decision = true) :
    Valued t.varCount t.witnesses t.prop.trail.values := by
  intro v hv
  cases he : t.hasEliminated v with
  | true => exact Or.inl (h.eliminations.witnessed.1 he)
  | false =>
    refine Or.inr (ha v ?_)
    rw [h.candidates.enabled hv, hd v hv he, show (infoOf t.vars v).eliminated = false from he]
    rfl

theorem Solver.models_trail (h : t.Inv) (hs : t.status ≠ .unsat) (he : t.prop.watches.enabled = true)
    (hc : t.prop.Complete) (hv : Valued t.varCount t.witnesses t.prop.trail.values) :
    t.Models (.ofValues t.prop.trail.values) := by
  have hholds {l : Lit} (hl : t.prop.trail.isTrue l) : l.Holds (.ofValues t.prop.trail.values) :=
    TrueIn.holds (Trail.isTrue_iff.1 hl)
  refine ⟨hs, fun hl => hholds hl.1, ?_⟩
  intro r hr hn
  by_cases ht : ∃ l ∈ (t.prop.clauses.get r).lits, t.prop.trail.isTrue l
  · obtain ⟨l, hl, ht⟩ := ht
    exact ⟨l, hl, hholds ht⟩
  · have hn' : ∀ l ∈ (t.prop.clauses.get r).lits, ¬ t.prop.trail.isTrue l := fun l hl ht' => ht ⟨l, hl, ht'⟩
    have hm := Clause.first_mem (t.prop.clauses.get r)
    have hu := h.prop.not_isAssigned_watched he hc hr hn' (Or.inl rfl) hm
    have hel := h.eliminations.purged hr hn hm
    rcases hv _ ((h.prop.fits hr).index_lt hm) with hw | ha
    · rw [h.eliminations.witnessed.2 hw] at hel
      cases hel
    · exact absurd ha hu

theorem Reachable.exists_model (h : Reachable counting s f) {simplifyFirst turnOff : Bool}
    (hsat : (s.solveWith simplifyFirst turnOff).1 = .sat)
    (hd : ∀ v : Var, v.index < (s.solveWith simplifyFirst turnOff).2.varCount →
      (s.solveWith simplifyFirst turnOff).2.hasEliminated v = false →
        (infoOf (s.solveWith simplifyFirst turnOff).2.vars v).decision = true) :
    ∃ a, SatisfiesAll a f ∧ ∀ l : Lit, l.var.index < (s.solveWith simplifyFirst turnOff).2.varCount →
      (s.solveWith simplifyFirst turnOff).2.modelValue l = .ok (some (decide (l.Holds a))) := by
  obtain ⟨hc, hset⟩ := Solver.search_called h.inv simplifyFirst turnOff
  have hr := h.represents.called hc
  rw [Solver.solveWith_eq] at hsat hd ⊢
  generalize (s.searchStart simplifyFirst turnOff).search = t at hc hset hr hsat hd
  have hst : t.status = .sat := Solver.verdict_eq_sat.1 hsat
  obtain ⟨he, hcomp, hall⟩ := hset hst
  obtain ⟨hvars, hlast, hmodel⟩ := Solver.conclude_sat hst
  generalize t.conclude.2 = u at hd hvars hlast hmodel
  have hcount : u.varCount = t.varCount := congrArg Array.size hvars
  have hv : Valued t.varCount t.witnesses t.prop.trail.values := by
    apply Solver.valued_trail hc.inv hall
    intro v hx hel
    rw [← hvars]
    apply hd v (hcount.symm ▸ hx)
    rw [Solver.hasEliminated, hvars]
    exact hel
  have hm := Solver.models_trail hc.inv (by rw [hst]; exact fun h => nomatch h) he hcomp hv
  obtain ⟨-, h1, h2⟩ := extendModel_spec hc.inv.prop.trail.values_size hv hc.inv.eliminations.ordered
  rw [← hmodel] at h1 h2
  refine ⟨.ofValues u.model, fun c hcf => h2.symm ▸ hr.models hm c hcf, fun l hx => ?_⟩
  rw [hcount] at hx
  obtain ⟨b, hb⟩ := Option.isSome_iff_exists.1 ((h1 l.var hx).resolve_left fun ⟨w, hw, _⟩ => nomatch hw)
  have ha : Assignment.ofValues u.model l.var = b := by rw [Assignment.ofValues, hb, Option.getD_some]
  have hdec : decide (l.Holds (.ofValues u.model)) = (b == l.isPositive) := ha ▸ rfl
  unfold Solver.modelValue Solver.checkVar
  rw [hcount, if_pos hx, if_pos hlast, Solver.modelLit, hb, hdec]
  rfl

theorem Reachable.exists_true_literal (h : Reachable counting s f) {simplifyFirst turnOff : Bool}
    (hsat : (s.solveWith simplifyFirst turnOff).1 = .sat)
    (hd : ∀ v : Var, v.index < (s.solveWith simplifyFirst turnOff).2.varCount →
      (s.solveWith simplifyFirst turnOff).2.hasEliminated v = false →
        (infoOf (s.solveWith simplifyFirst turnOff).2.vars v).decision = true) {c : List Lit} (hc : c ∈ f) :
    ∃ l ∈ c, (s.solveWith simplifyFirst turnOff).2.modelValue l = .ok (some true) := by
  obtain ⟨a, ha, hv⟩ := h.exists_model hsat hd
  obtain ⟨l, hl, hla⟩ := ha c hc
  refine ⟨l, hl, ?_⟩
  rw [hv l ((h.solveWith simplifyFirst turnOff).represents.index_lt hc hl), decide_eq_true hla]

/-- Answers that there is a model are right: it gives every variable a value, and satisfies every accepted clause.
Without decisions on all variables the search can end before all have a value. -/
theorem solveWith_model_satisfies (h : Reachable counting s f) (simplifyFirst turnOff : Bool)
    (hsat : (s.solveWith simplifyFirst turnOff).1 = .sat)
    (hd : ∀ v : Var, v.index < (s.solveWith simplifyFirst turnOff).2.varCount →
      (s.solveWith simplifyFirst turnOff).2.hasEliminated v = false →
        (infoOf (s.solveWith simplifyFirst turnOff).2.vars v).decision = true) :
    (∀ v : Var, v.index < (s.solveWith simplifyFirst turnOff).2.varCount →
      ∃ b, (s.solveWith simplifyFirst turnOff).2.modelValue v.positive = .ok (some b)) ∧
      ∀ c ∈ f, ∃ l ∈ c, (s.solveWith simplifyFirst turnOff).2.modelValue l = .ok (some true) := by
  obtain ⟨a, ha, hv⟩ := h.exists_model hsat hd
  have hr := h.represents.called (Solver.solveWith_called h.inv simplifyFirst turnOff)
  refine ⟨fun v hx => ⟨_, hv v.positive ((Lit.var_lit v true).symm ▸ hx)⟩, fun c hc => ?_⟩
  obtain ⟨l, hl, hla⟩ := ha c hc
  refine ⟨l, hl, ?_⟩
  rw [hv l (hr.index_lt hc hl), decide_eq_true hla]

/-- Of two equivalent variables one is eliminated, and has a value in the model nevertheless. -/
theorem solveWith_model_satisfies_equivalence :
    let t := (equivalenceSolver.solveWith true false).2
    t.hasEliminated ⟨0⟩ = true ∧ (∀ v : Var, v.index < t.varCount → ∃ b, t.modelValue v.positive = .ok (some b)) ∧
      ∀ c ∈ [[⟨0⟩, ⟨3⟩], [⟨1⟩, ⟨2⟩]], ∃ l ∈ c, t.modelValue l = .ok (some true) := by
  have hsat : (equivalenceSolver.solveWith true false).1 = .sat := by decide +kernel
  have hd : ∀ i < (equivalenceSolver.solveWith true false).2.varCount,
      (equivalenceSolver.solveWith true false).2.hasEliminated ⟨i⟩ = false →
        (infoOf (equivalenceSolver.solveWith true false).2.vars ⟨i⟩).decision = true := by decide +kernel
  exact ⟨by decide +kernel, solveWith_model_satisfies reachable_equivalence true false hsat fun v => hd v.index⟩

/-! ## Unsatisfiability -/

theorem Represents.not_satisfiesAll (h : Represents s f) (hs : s.status = .unsat) (a : Assignment) :
    ¬ SatisfiesAll a f := fun ha => (h.modelsAll ha).1 hs

theorem Solver.unsat_of_solveWith {simplifyFirst turnOff : Bool}
    (hu : (s.solveWith simplifyFirst turnOff).1 = .unsat) : (s.solveWith simplifyFirst turnOff).2.status = .unsat := by
  rw [Solver.solveWith_eq] at hu ⊢
  generalize (s.searchStart simplifyFirst turnOff).search = t at hu
  have hst : t.status = .unsat := Solver.verdict_eq_unsat.1 hu
  unfold Solver.conclude
  dsimp only
  split <;> exact hst

theorem Solver.solveWith_of_unsat (h : s.Inv) (hs : s.status = .unsat) (simplifyFirst turnOff : Bool) :
    (s.solveWith simplifyFirst turnOff).1 = .unsat :=
  Solver.verdict_eq_unsat.2 ((Solver.search_called h simplifyFirst turnOff).1.unsat hs)

theorem Solver.addClause_of_unsat {ls : List Lit} (h : s.Inv) (hs : s.status = .unsat)
    (hl : ∀ l ∈ ls, l.var.index < s.varCount ∧ s.hasEliminated l.var = false) : (s.addClause ls).1 = .ok false := by
  cases hc : s.addClause ls with
  | mk answer s' =>
    cases answer with
    | error e =>
      unfold Solver.addClause at hc
      rw [Solver.checkClause_eq_ok.2 hl] at hc
      cases (Prod.mk.inj hc).1
    | ok b =>
      obtain ⟨-, ha, rfl⟩ := Solver.addClause_ok h hc
      exact congrArg Except.ok (Solver.okay_eq_false.2 (ha.unsat hs))

/-- What is known once some clauses are refuted: no assignment satisfies them, and after any further calls up to the
next reset every answer is the same. -/
structure Refuted (s : Solver) (f : List (List Lit)) : Prop where
  not_satisfiesAll (a : Assignment) : ¬ SatisfiesAll a f
  okay_eq (cs : List Call) : (Call.runAll s cs).okay = false
  solveWith_eq (cs : List Call) (simplifyFirst turnOff : Bool) :
    ((Call.runAll s cs).solveWith simplifyFirst turnOff).1 = .unsat
  addClause_eq (cs : List Call) (ls : List Lit) :
    (∀ l ∈ ls, l.var.index < (Call.runAll s cs).varCount ∧ (Call.runAll s cs).hasEliminated l.var = false) →
      ((Call.runAll s cs).addClause ls).1 = .ok false

theorem refuted_of_unsat (h : Reachable counting s f) (hs : s.status = .unsat) : Refuted s f where
  not_satisfiesAll := h.represents.not_satisfiesAll hs
  okay_eq cs := Solver.okay_eq_false.2 (h.unsat_runAll cs hs)
  solveWith_eq cs := Solver.solveWith_of_unsat (h.runAll cs).inv (h.unsat_runAll cs hs)
  addClause_eq cs _ := Solver.addClause_of_unsat (h.runAll cs).inv (h.unsat_runAll cs hs)

/-- Answers that there is no model are right and final, whether a solve call gave them or an added clause did. -/
theorem unsat_is_final (h : Reachable counting s f) :
    (s.okay = false → Refuted s f) ∧ ∀ simplifyFirst turnOff,
      (s.solveWith simplifyFirst turnOff).1 = .unsat → Refuted (s.solveWith simplifyFirst turnOff).2 f := by
  refine ⟨fun hok => refuted_of_unsat h (Solver.okay_eq_false.1 hok), ?_⟩
  intro simplifyFirst turnOff hu
  have h1 := h.call (.solveWith simplifyFirst turnOff)
  rw [show Call.accepted s (.solveWith simplifyFirst turnOff) = [] from rfl, List.append_nil] at h1
  exact refuted_of_unsat h1 (Solver.unsat_of_solveWith hu)

/-- All clauses over two variables. None of them gives a fact. -/
def allClauses : List Call :=
  [.newVar none true, .newVar none true, .addClause [⟨0⟩, ⟨2⟩], .addClause [⟨0⟩, ⟨3⟩], .addClause [⟨1⟩, ⟨2⟩],
    .addClause [⟨1⟩, ⟨3⟩]]

def allClausesSolver : Solver := Call.runAll (Solver.start .words .stable) allClauses

/-- A search refutes the clauses, with a conflict that follows a decision. -/
theorem unsat_is_final_allClauses :
    allClausesSolver.okay = true ∧ allClausesSolver.prop.trail.lits.isEmpty = true ∧
      (allClausesSolver.solveWith false false).2.schedule.decisions = 1 ∧
        Refuted (allClausesSolver.solveWith false false).2 [[⟨0⟩, ⟨2⟩], [⟨0⟩, ⟨3⟩], [⟨1⟩, ⟨2⟩], [⟨1⟩, ⟨3⟩]] := by
  have hunsat : (allClausesSolver.solveWith false false).1 = .unsat := by decide +kernel
  refine ⟨by decide +kernel, by decide +kernel, by decide +kernel, ?_⟩
  exact (unsat_is_final ((Reachable.start .stable).runAll allClauses)).2 false false hunsat

/-! ## The stored formula -/

/-- The stored formula says the same as the accepted one: what satisfies the accepted clauses agrees with all facts and
satisfies all stored clauses, and what agrees with all facts and satisfies the irredundant ones becomes, by other values
for eliminated variables, an assignment that satisfies the accepted clauses. -/
theorem stored_formula_equivalent (h : Reachable counting s f) (hok : s.okay = true) :
    (∀ a, SatisfiesAll a f → (∀ l, s.prop.trail.Fact l → l.Holds a) ∧
      ∀ r, s.prop.clauses.isLive r → Satisfies a (s.prop.clauses.get r).lits) ∧
      ∀ m : Array (Option Bool), m.size = s.varCount →
        (∀ v : Var, v.index < s.varCount → (m.getD v.index none).isSome) → (∀ l, s.prop.trail.Fact l → l.TrueIn m) →
          (∀ r, s.prop.clauses.isLive r → (s.prop.clauses.get r).learned = false →
            ∃ l ∈ (s.prop.clauses.get r).lits, l.TrueIn m) →
            (∀ c ∈ f, ∃ l ∈ c, l.TrueIn (extendModel s.witnesses m)) ∧
              ∀ v : Var, (extendModel s.witnesses m).getD v.index none ≠ m.getD v.index none → s.hasEliminated v := by
  have hi := h.inv
  have hr := h.represents
  have hs : s.status ≠ .unsat := fun hs => absurd (hok.symm.trans (Solver.okay_eq_false.2 hs)) Bool.noConfusion
  refine ⟨?_, fun m hsize hv hfact hclause => ⟨?_, ?_⟩⟩
  · intro a ha
    obtain ⟨-, hm⟩ := hr.modelsAll ha
    exact ⟨fun l hl => hm.fact hl, fun r hl => hm.clause hl⟩
  · intro c hc
    have hm : s.Models (.ofValues m) := by
      refine ⟨hs, fun {l} hl => TrueIn.holds (hfact l hl), ?_⟩
      intro r hl hn
      obtain ⟨l, hlm, ht⟩ := hclause r hl hn
      exact ⟨l, hlm, TrueIn.holds ht⟩
    obtain ⟨-, h1, h2⟩ := extendModel_spec hsize (fun v hx => Or.inr (hv v hx)) hi.eliminations.ordered
    have hsat := hr.models hm c hc
    rw [← h2] at hsat
    exact satisfies_ofValues hsat h1 fun l hl => hr.index_lt hc hl
  · intro v hne
    refine hi.eliminations.witnessed.2 (Classical.byContradiction fun hnone => hne ?_)
    exact getD_extendModel fun w hw hwv => hnone ⟨w, hw, hwv⟩

/-- The value of the eliminated variable follows from the values of the others. -/
theorem stored_formula_equivalent_eliminated :
    eliminatedSolver.hasEliminated ⟨0⟩ = true ∧ ∀ c ∈ [[⟨0⟩, ⟨3⟩], [⟨1⟩, ⟨2⟩], [⟨2⟩, ⟨4⟩], [⟨6⟩]], ∃ l ∈ c,
      Lit.TrueIn (extendModel eliminatedSolver.witnesses #[some false, some true, some false, some true]) l := by
  have hcount : eliminatedSolver.varCount = 4 := by decide +kernel
  have hvalues : ∀ i < 4, (#[some false, some true, some false, some true].getD i none).isSome = true := by decide
  have hfacts : ∀ i < 8, eliminatedSolver.prop.trail.isTrue ⟨i⟩ = true → i = 6 := by decide +kernel
  have hclauses : ∀ r < eliminatedSolver.prop.clauses.slots.size, eliminatedSolver.prop.clauses.isLive r = true →
      ⟨2⟩ ∈ (eliminatedSolver.prop.clauses.get r).lits := by decide +kernel
  obtain ⟨-, h⟩ := stored_formula_equivalent reachable_eliminated (by decide +kernel)
  refine ⟨by decide +kernel, (h #[some false, some true, some false, some true] hcount.symm ?_
    ?_ ?_).1⟩
  · intro v hv
    exact hvalues v.index (hcount ▸ hv)
  · intro l hl
    have hx := reachable_eliminated.inv.prop.trail.index_lt (Trail.isAssigned_of_isTrue hl.1)
    have hl6 := hfacts l.code (Lit.code_lt (hcount ▸ hx)) hl.1
    rw [show l = ⟨6⟩ from Lit.ext_code hl6]
    rfl
  · intro r hr _
    exact ⟨⟨2⟩, hclauses r (Database.lt_of_isLive hr) hr, rfl⟩

end ClauseLearning
