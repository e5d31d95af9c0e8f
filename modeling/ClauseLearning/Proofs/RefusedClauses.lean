import ClauseLearning.Proofs.Frozen

/-!
# Refused clauses

An engine refuses a clause if a number in it is no literal, or if a variable was eliminated. The plain engine looks at
the numbers first and at the variables last, when it has allocated new ones and has let the pending literals join the
clause. So a clause that is refused because of a variable leaves new variables behind, and takes the pending literals
along.

* `Solver.Enlarged` : variables were allocated, and nothing that was there changed;
* `PlainEngine.Refusal` : what a clause that is refused because of a variable does;
* `refused_clauses` : what is left after a clause was refused;
* `SimplifyingEngine.eq_of_addClause_error` : the simplifying engine stays as it was;
* `refused_clause_changes` : a refused clause after which there are more variables, and less pending literals.
-/

namespace ClauseLearning

namespace Solver

variable {s s' s'' : Solver} {ls : List Lit}

/-! ## Allocated variables -/

/-- Variables were allocated, and nothing that was there changed. -/
structure Enlarged (s s' : Solver) : Prop where
  varCount_le : s.varCount ≤ s'.varCount
  clauses_eq : s'.prop.clauses = s.prop.clauses
  value_eq (v : Var) : s'.prop.trail.value v = s.prop.trail.value v
  status_eq : s'.status = s.status

theorem Enlarged.refl (s : Solver) : Enlarged s s := ⟨Nat.le_refl _, rfl, fun _ => rfl, rfl⟩

theorem Enlarged.trans (h : Enlarged s s') (h' : Enlarged s' s'') : Enlarged s s'' :=
  ⟨Nat.le_trans h.varCount_le h'.varCount_le, h'.clauses_eq.trans h.clauses_eq,
    fun v => (h'.value_eq v).trans (h.value_eq v), h'.status_eq.trans h.status_eq⟩

theorem varCount_allocate (s : Solver) (info : Variable) : (s.allocate info).2.varCount = s.varCount + 1 :=
  Array.size_push ..

theorem allocate_enlarged (s : Solver) (info : Variable) : Enlarged s (s.allocate info).2 :=
  ⟨Nat.le_trans (Nat.le_succ _) (Nat.le_of_eq (s.varCount_allocate info).symm), rfl, fun _ => Trail.value_addVar, rfl⟩

theorem ensureVarCount_enlarged (s : Solver) (count : Nat) : Enlarged s (s.ensureVarCount count) :=
  ensureVarCount_keeps (Enlarged.refl s) (fun t ht => ht.trans (t.allocate_enlarged {})) count

theorem le_varCount_ensureVarCount (s : Solver) (count : Nat) : count ≤ (s.ensureVarCount count).varCount := by
  unfold ensureVarCount
  generalize hk : count - s.varCount = k
  induction k generalizing s with
  | zero => exact Nat.le_of_sub_eq_zero hk
  | succ k ih =>
    have hcount := s.varCount_allocate {}
    exact ih (s.allocate {}).2 (by omega)

theorem allocateFor_enlarged (s : Solver) (ls : List Lit) :
    Enlarged s (s.allocateFor ls) ∧ ∀ l ∈ ls, l.var.index < (s.allocateFor ls).varCount := by
  induction ls generalizing s with
  | nil => exact ⟨.refl s, fun l hl => nomatch hl⟩
  | cons l ls ih =>
    have hl := s.le_varCount_ensureVarCount (l.var.index + 1)
    obtain ⟨hs, hls⟩ := ih (s.ensureVarCount (l.var.index + 1))
    exact ⟨(s.ensureVarCount_enlarged _).trans hs, List.forall_mem_cons.2 ⟨Nat.lt_of_lt_of_le hl hs.varCount_le, hls⟩⟩

theorem varCount_allocateFor_eq : (s.allocateFor ls).varCount = s.varCount ↔ ∀ l ∈ ls, l.var.index < s.varCount :=
  ⟨fun h l hl => h ▸ (s.allocateFor_enlarged ls).2 l hl, fun h => by rw [allocateFor_of_lt h]⟩

theorem addClause_error_eq {e : SolverError} (h : (s.addClause ls).1 = .error e) :
    s.checkClause ls = .error e ∧ (s.addClause ls).2 = s := by
  unfold addClause at h ⊢
  cases hc : s.checkClause ls with
  | error err =>
    rw [hc] at h
    obtain rfl := Except.error.inj h
    exact ⟨rfl, rfl⟩
  | ok u =>
    rw [hc] at h
    cases h

end Solver

/-! ## The plain engine -/

namespace PlainEngine

variable {e e' : PlainEngine} {ls : List Lit} {numbers : List Int32} {err : SolverError}

/-- What a clause does that is refused because of a variable. -/
structure Refusal (ls : List Lit) (err : SolverError) (e e' : PlainEngine) : Prop where
  /-- A variable of the clause was eliminated, or a pending literal is older than a reset of the solver. -/
  cause : ∃ l ∈ e.pending ++ ls, err = .eliminatedVariable l.var ∧ e.solver.hasEliminated l.var = true ∨
    l ∈ e.pending ∧ err = .unknownVariable l.var ∧ e.solver.varCount ≤ l.var.index
  pending_eq : e'.pending = []
  solver_eq : e'.solver = e.solver.allocateFor ls
  /-- Each variable of the clause is allocated now. -/
  varCount_eq_iff : e'.solver.varCount = e.solver.varCount ↔ ∀ l ∈ ls, l.var.index < e.solver.varCount
  eq_iff : e' = e ↔ e.pending = [] ∧ ∀ l ∈ ls, l.var.index < e.solver.varCount

theorem addClause_refusal (hls : litsOf numbers = .ok ls) (h : e.addClause numbers = (.error err, e')) :
    Refusal ls err e e' := by
  rw [addClause_eq hls] at h
  obtain ⟨hanswer, rfl⟩ := Prod.mk.inj h
  obtain ⟨hcheck, hsolver⟩ := Solver.addClause_error_eq hanswer
  obtain ⟨hs, hlt⟩ := e.solver.allocateFor_enlarged ls
  rw [hsolver]
  refine ⟨?_, rfl, rfl, Solver.varCount_allocateFor_eq, ?_, ?_⟩
  · obtain ⟨l, hl, hcause⟩ := Solver.checkClause_eq_error hcheck
    refine ⟨l, hl, hcause.symm.imp ?_ ?_⟩
    · exact fun ⟨herr, he⟩ => ⟨herr, ((e.solver.allocateFor_kept ls).eliminated_eq l.var).symm.trans he⟩
    · -- the variables of the clause itself are allocated before they are looked at
      intro ⟨herr, hx⟩
      rcases List.mem_append.1 hl with hp | hp
      · exact ⟨hp, herr, Nat.le_trans hs.varCount_le hx⟩
      · exact absurd (hlt l hp) (Nat.not_lt_of_le hx)
  · intro he
    exact ⟨(congrArg pending he).symm,
      Solver.varCount_allocateFor_eq.1 (congrArg (fun e : PlainEngine => e.solver.varCount) he)⟩
  · rintro ⟨hp, hx⟩
    rw [Solver.allocateFor_of_lt hx, ← hp]

end PlainEngine

/-- **What is left after a clause was refused.** The plain engine keeps its clauses, its values and whether it is okay.
It stays as it was if a number is no literal. If the clause is refused because of a variable, then no literal is pending
any more, and the variables of the clause are allocated. So this changes nothing just if nothing was pending and all
variables were there. -/
theorem refused_clauses {e e' : PlainEngine} {numbers : List Int32} {err : SolverError}
    (h : e.addClause numbers = (.error err, e')) :
    (e'.solver.okay = e.solver.okay ∧ e'.solver.prop.clauses = e.solver.prop.clauses ∧
      ∀ v, e'.solver.prop.trail.value v = e.solver.prop.trail.value v) ∧
    (∀ err', litsOf numbers = .error err' → err = err' ∧ e' = e) ∧
    ∀ ls, litsOf numbers = .ok ls → PlainEngine.Refusal ls err e e' := by
  have hinvalid : ∀ err', litsOf numbers = .error err' → err = err' ∧ e' = e := fun err' hn => by
    rw [PlainEngine.addClause, hn] at h
    obtain ⟨herr, he⟩ := Prod.mk.inj h
    exact ⟨(Except.error.inj herr).symm, he.symm⟩
  refine ⟨?_, hinvalid, fun ls hls => PlainEngine.addClause_refusal hls h⟩
  cases hn : litsOf numbers with
  | error err' =>
    obtain ⟨-, rfl⟩ := hinvalid err' hn
    exact ⟨rfl, rfl, fun _ => rfl⟩
  | ok ls =>
    obtain ⟨hs, -⟩ := e.solver.allocateFor_enlarged ls
    rw [(PlainEngine.addClause_refusal hn h).solver_eq]
    exact ⟨congrArg (fun status : Status => status != .unsat) hs.status_eq, hs.clauses_eq, hs.value_eq⟩

/-- A plain engine that has eliminated the first of its two variables. -/
def eliminatedEngine : PlainEngine :=
  runCalls {} [.newVariable {}, .newVariable {}, .addClause [1, 2], .onSolver (.eliminate false)]

/-- A clause of the two variables is refused, and the engine stays as it was. -/
theorem refused_clauses_eliminated :
    eliminatedEngine.addClause [1, 2] = (.error (.eliminatedVariable ⟨0⟩), eliminatedEngine) := by
  have hanswer : (eliminatedEngine.addClause [1, 2]).1 = .error (.eliminatedVariable ⟨0⟩) := rfl
  obtain ⟨-, -, hrefusal⟩ := refused_clauses (Prod.ext hanswer rfl)
  have hlits : ∀ l ∈ ([⟨0⟩, ⟨2⟩] : List Lit), l.var.index < eliminatedEngine.solver.varCount := by decide +kernel
  exact Prod.ext hanswer ((hrefusal [⟨0⟩, ⟨2⟩] rfl).eq_iff.2 ⟨rfl, hlits⟩)

/-- A clause of the eliminated variable and a new one is refused. Then the new one is there, and a literal that was
pending is not pending any more. -/
theorem refused_clause_changes :
    (¬ ∀ (e e' : PlainEngine) f numbers err, EngineReachable e f → e.addClause numbers = (.error err, e') →
      e'.solver.varCount = e.solver.varCount) ∧
    ¬ ∀ (e e' : PlainEngine) f numbers err, EngineReachable e f → e.addClause numbers = (.error err, e') →
      e'.pending = e.pending := by
  have hr := (EngineReachable.new ⟨.stable, rfl⟩ : EngineReachable ({} : PlainEngine) []).runAll
    [.newVariable {}, .newVariable {}, .addClause [1, 2], .onSolver (.eliminate false), .put 2]
  have hanswer : ((eliminatedEngine.put 2).2.addClause [1, 4]).1 = .error (.eliminatedVariable ⟨0⟩) := rfl
  refine ⟨fun h => ?_, fun h => ?_⟩
  · exact absurd (h _ _ _ _ _ hr (Prod.ext hanswer rfl)) (by decide +kernel)
  · exact absurd (congrArg List.length (h _ _ _ _ _ hr (Prod.ext hanswer rfl))) (by decide +kernel)

/-! ## The simplifying engine -/

/-- The simplifying engine stays as it was. -/
theorem SimplifyingEngine.eq_of_addClause_error {e e' : SimplifyingEngine} {numbers : List Int32}
    {err : SolverError} (h : e.addClause numbers = (.error err, e')) : e' = e := by
  rw [addClause] at h
  cases hn : litsOf numbers with
  | error err' =>
    rw [hn] at h
    exact (Prod.mk.inj h).2.symm
  | ok ls =>
    rw [hn] at h
    obtain ⟨hanswer, rfl⟩ := Prod.mk.inj h
    obtain ⟨-, hsolver⟩ := Solver.addClause_error_eq hanswer
    exact congrArg (fun s => { e with solver := s }) hsolver

end ClauseLearning
