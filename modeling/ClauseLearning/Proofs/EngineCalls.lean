import ClauseLearning.Proofs.Engines

/-!
# Calls on engines

* `CallableEngine` : an engine with its calls, each of which comes to some calls on the solver inside of it;
* `PlainCall`, `SimplifyingCall` : the calls on the two engines, those on the wrapped solver included;
* `EngineReachable` : the states of an engine that calls lead to, with the accepted clauses;
* `runCalls`, `EngineReachable.runAll`, `EngineReachable.keep` : some calls in turn;
* `EngineReachable.exists_true_literal` : in the models that calls find, every accepted clause has a true literal.
-/

namespace ClauseLearning

open SolverEngine (solver)

/-- An engine with calls `κ`, other than resets, on itself and on its solver. -/
class CallableEngine (σ : Type) (κ : outParam Type) [Engine σ] [SolverEngine σ] where
  /-- The engines that are created. -/
  New : σ → Prop
  /-- The engine with another solver. -/
  withSolver : σ → Solver → σ
  /-- The engine after a call. -/
  run : σ → κ → σ
  /-- The calls on the solver that a call comes to. -/
  calls : σ → κ → List Call
  /-- A call that searches, and answers that it found a model. -/
  FindsModel : σ → κ → Prop
  solver_new {e : σ} : New e → ∃ ties, solver e = Solver.start .words ties
  solver_withSolver (e : σ) (s : Solver) : solver (withSolver e s) = s
  solver_reset (e : σ) : solver (Engine.reset e) = (solver e).reset
  solver_run (e : σ) (c : κ) : solver (run e c) = Call.runAll (solver e) (calls e c)
  finds_model {e : σ} {c : κ} : FindsModel e c → ∃ cs first off,
    ((Call.runAll (solver e) cs).solveWith first off).1 = .sat ∧
      solver (run e c) = ((Call.runAll (solver e) cs).solveWith first off).2

/-! ## The plain engine -/

/-- A call on a plain engine or on its solver. -/
inductive PlainCall
  | nextVariable
  | newVariable (f : VarFlags)
  | put (number : Int32)
  | addClause (numbers : List Int32)
  | solve
  | solveLimited (limit : Int)
  | setDecisionLimit (limit : Option Nat)
  | onSolver (c : Call)

/-- Allocates the variable of a literal. -/
def Call.allocateVar (l : Lit) : Call := .addFormula { varCount := l.var.index + 1 }

theorem Call.runAll_append (s : Solver) (cs ds : List Call) : runAll s (cs ++ ds) = runAll (runAll s cs) ds :=
  List.foldl_append

theorem Call.runAll_allocateVar (s : Solver) (ls : List Lit) : runAll s (ls.map allocateVar) = s.allocateFor ls := by
  rw [runAll, List.foldl_map]
  rfl

theorem Call.acceptedAll_append (s : Solver) (cs ds : List Call) :
    acceptedAll s (cs ++ ds) = acceptedAll s cs ++ acceptedAll (runAll s cs) ds := by
  induction cs generalizing s with
  | nil => rfl
  | cons c cs ih =>
    rw [List.cons_append, acceptedAll, acceptedAll, ih, List.append_assoc]
    rfl

/-- A call that answers that it found a model. -/
def Call.FindsModel (s : Solver) : Call → Prop
  | solve => s.solve.1 = .sat
  | solveWith first off => (s.solveWith first off).1 = .sat
  | _ => False

theorem Call.finds_model {s : Solver} {c : Call} (h : c.FindsModel s) :
    ∃ first off, (s.solveWith first off).1 = .sat ∧ c.run s = (s.solveWith first off).2 := by
  cases c with
  | solve => exact ⟨false, false, h, rfl⟩
  | solveWith first off => exact ⟨first, off, h, rfl⟩
  | _ => exact h.elim

theorem Verdict.exitCode_injective : Function.Injective Verdict.exitCode := by
  intro v w
  cases v <;> cases w <;> decide

namespace PlainEngine

/-- The engine after a call. -/
def run (e : PlainEngine) : PlainCall → PlainEngine
  | .nextVariable => e.nextVariable.2
  | .newVariable f => (e.newVariable f).2
  | .put number => (e.put number).2
  | .addClause numbers => (e.addClause numbers).2
  | .solve => e.solve.2
  | .solveLimited limit => (e.solveLimited limit).2
  | .setDecisionLimit limit => e.setDecisionLimit limit
  | .onSolver c => { e with solver := c.run e.solver }

/-- The limit on decisions that a number stands for. -/
def limitOf (limit : Int) : Option Nat := if limit < 0 then none else some limit.toNat

/-- The search that is made unless a clause is pending. -/
def searchCalls (e : PlainEngine) : List Call := if e.pending.isEmpty then [.solve] else []

/-- What a call comes to. -/
def calls (e : PlainEngine) : PlainCall → List Call
  | .nextVariable => [.newVar none true]
  | .newVariable f => [.newVar f.polarity (!f.noDecision)]
  | .put number =>
    if number = 0 then [.addClause e.pending]
    else
      match litOf number with
      | .error _ => []
      | .ok l => [.allocateVar l]
  | .addClause numbers =>
    match litsOf numbers with
    | .error _ => []
    | .ok ls => ls.map .allocateVar ++ [.addClause (e.pending ++ ls)]
  | .solve => e.searchCalls
  | .solveLimited limit => .setDecisionLimit (limitOf limit) :: e.searchCalls
  | .setDecisionLimit limit => [.setDecisionLimit limit]
  | .onSolver c => [c]

/-- A call that answers that it found a model. -/
def FindsModel (e : PlainEngine) : PlainCall → Prop
  | .solve => e.solve.1 = .ok .sat
  | .solveLimited limit => (e.solveLimited limit).1 = .ok Verdict.sat.exitCode
  | .onSolver c => c.FindsModel e.solver
  | _ => False

theorem solver_solve (e : PlainEngine) : e.solve.2.solver = Call.runAll e.solver e.searchCalls := by
  rw [solve, searchCalls]
  split <;> rfl

theorem solver_run (e : PlainEngine) (c : PlainCall) : (e.run c).solver = Call.runAll e.solver (e.calls c) := by
  cases c with
  | nextVariable => rfl
  | newVariable f => rfl
  | put number =>
    rw [run, calls, put]
    split
    · rfl
    · cases litOf number <;> rfl
  | addClause numbers =>
    rw [run, calls]
    cases h : litsOf numbers with
    | error err => rw [addClause, h]; rfl
    | ok ls =>
      rw [addClause_eq h]
      dsimp only
      rw [Call.runAll_append, Call.runAll_allocateVar]
      rfl
  | solve => exact e.solver_solve
  | solveLimited limit => exact (e.setDecisionLimit (limitOf limit)).solver_solve
  | setDecisionLimit limit => rfl
  | onSolver c => rfl

theorem finds_model_solve {e : PlainEngine} (h : e.solve.1 = .ok .sat) :
    e.solver.solve.1 = .sat ∧ e.solve.2.solver = e.solver.solve.2 := by
  rw [solve] at h ⊢
  split at h
  · next hp => exact ⟨Except.ok.inj h, by rw [if_pos hp]⟩
  · cases h

theorem finds_model {e : PlainEngine} {c : PlainCall} (h : e.FindsModel c) : ∃ cs first off,
    ((Call.runAll e.solver cs).solveWith first off).1 = .sat ∧
      (e.run c).solver = ((Call.runAll e.solver cs).solveWith first off).2 := by
  cases c with
  | solve => exact ⟨[], false, false, finds_model_solve h⟩
  | solveLimited limit =>
    refine ⟨[.setDecisionLimit (limitOf limit)], false, false, ?_⟩
    change (e.setDecisionLimit (limitOf limit)).solve.1.map Verdict.exitCode = .ok Verdict.sat.exitCode at h
    show ((e.setDecisionLimit (limitOf limit)).solver.solve).1 = .sat ∧
      (e.setDecisionLimit (limitOf limit)).solve.2.solver = (e.setDecisionLimit (limitOf limit)).solver.solve.2
    refine finds_model_solve ?_
    cases ha : (e.setDecisionLimit (limitOf limit)).solve.1 with
    | error err =>
      rw [ha] at h
      cases h
    | ok v =>
      rw [ha] at h
      exact congrArg Except.ok (Verdict.exitCode_injective (Except.ok.inj h))
  | onSolver c =>
    obtain ⟨first, off, hc⟩ := Call.finds_model h
    exact ⟨[], first, off, hc⟩
  | _ => exact h.elim

end PlainEngine

instance : CallableEngine PlainEngine PlainCall where
  New e := ∃ ties, e = { solver := .start .words ties }
  withSolver e s := { e with solver := s }
  run := PlainEngine.run
  calls := PlainEngine.calls
  FindsModel := PlainEngine.FindsModel
  solver_new := fun ⟨ties, h⟩ => ⟨ties, h ▸ rfl⟩
  solver_withSolver _ _ := rfl
  solver_reset _ := rfl
  solver_run := PlainEngine.solver_run
  finds_model := PlainEngine.finds_model

/-! ## The simplifying engine -/

/-- A call on a simplifying engine or on its solver. -/
inductive SimplifyingCall
  | newVariable (f : VarFlags)
  | addClause (numbers : List Int32)
  | solve
  | setDecisionLimit (limit : Option Nat)
  | setDecision (number : Int32) (decision : Bool)
  | setFrozen (number : Int32) (frozen : Bool)
  | onSolver (c : Call)

namespace SimplifyingEngine

/-- The engine after a call. -/
def run (e : SimplifyingEngine) : SimplifyingCall → SimplifyingEngine
  | .newVariable f => (e.newVariable f).2
  | .addClause numbers => (e.addClause numbers).2
  | .solve => e.solve.2
  | .setDecisionLimit limit => { e with solver := e.solver.setDecisionLimit limit }
  | .setDecision number decision => (e.setDecision number decision).2
  | .setFrozen number frozen => (e.setFrozen number frozen).2
  | .onSolver c => { e with solver := c.run e.solver }

/-- The search of a solve call. -/
def searchCall (e : SimplifyingEngine) : Call :=
  match e.mode with
  | .never => .solveWith false false
  | .once => .solveWith (!e.simplified) (!e.simplified)
  | .always => .solveWith true false

/-- What a call comes to. -/
def calls (e : SimplifyingEngine) : SimplifyingCall → List Call
  | .newVariable f => [.newVar f.polarity (!f.noDecision), .setFrozen ⟨e.solver.varCount⟩ (!f.eliminate)]
  | .addClause numbers =>
    match litsOf numbers with
    | .error _ => []
    | .ok ls => [.addClause ls]
  | .solve => [e.searchCall]
  | .setDecisionLimit limit => [.setDecisionLimit limit]
  | .setDecision number decision =>
    match varOf number with
    | .error _ => []
    | .ok v => [.setDecision v decision]
  | .setFrozen number frozen =>
    match varOf number with
    | .error _ => []
    | .ok v => [.setFrozen v frozen]
  | .onSolver c => [c]

/-- A call that answers that it found a model. -/
def FindsModel (e : SimplifyingEngine) : SimplifyingCall → Prop
  | .solve => e.solve.1 = .sat
  | .onSolver c => c.FindsModel e.solver
  | _ => False

theorem solver_solve (e : SimplifyingEngine) : e.solve.2.solver = e.searchCall.run e.solver := by
  rw [solve, searchCall]
  cases e.mode <;> rfl

theorem solver_run (e : SimplifyingEngine) (c : SimplifyingCall) :
    (e.run c).solver = Call.runAll e.solver (e.calls c) := by
  cases c with
  | newVariable f => exact (e.solver.setFrozen_newVar f.polarity (!f.noDecision) (!f.eliminate)).symm
  | addClause numbers =>
    rw [run, calls, addClause]
    cases litsOf numbers <;> rfl
  | solve => exact e.solver_solve
  | setDecisionLimit limit => rfl
  | setDecision number decision =>
    rw [run, calls, setDecision]
    cases varOf number <;> rfl
  | setFrozen number frozen =>
    rw [run, calls, setFrozen]
    cases varOf number <;> rfl
  | onSolver c => rfl

theorem finds_model {e : SimplifyingEngine} {c : SimplifyingCall} (h : e.FindsModel c) : ∃ cs first off,
    ((Call.runAll e.solver cs).solveWith first off).1 = .sat ∧
      (e.run c).solver = ((Call.runAll e.solver cs).solveWith first off).2 := by
  cases c with
  | solve =>
    obtain ⟨first, off, simplified, he⟩ := e.solve_eq
    change e.solve.1 = .sat at h
    rw [he] at h
    exact ⟨[], first, off, h, congrArg (fun answer => answer.2.solver) he⟩
  | onSolver c =>
    obtain ⟨first, off, hc⟩ := Call.finds_model h
    exact ⟨[], first, off, hc⟩
  | _ => exact h.elim

end SimplifyingEngine

instance : CallableEngine SimplifyingEngine SimplifyingCall where
  New e := ∃ ties mode, e = { solver := .start .words ties, mode := mode }
  withSolver e s := { e with solver := s }
  run := SimplifyingEngine.run
  calls := SimplifyingEngine.calls
  FindsModel := SimplifyingEngine.FindsModel
  solver_new := fun ⟨ties, _, h⟩ => ⟨ties, h ▸ rfl⟩
  solver_withSolver _ _ := rfl
  solver_reset _ := rfl
  solver_run := SimplifyingEngine.solver_run
  finds_model := SimplifyingEngine.finds_model

/-! ## Runs -/

section Runs

open CallableEngine

variable {σ κ : Type} [Engine σ] [SolverEngine σ] [CallableEngine σ κ] {e : σ} {f : List (List Lit)} {c : κ}

/-- The states of an engine that calls lead to, with the clauses that were accepted since the last reset of the engine
or of its solver. -/
inductive EngineReachable : σ → List (List Lit) → Prop
  | new {e : σ} : New e → EngineReachable e []
  | call {e : σ} {f : List (List Lit)} (c : κ) : EngineReachable e f →
    EngineReachable (run e c) (f ++ Call.acceptedAll (solver e) (calls e c))
  | reset {e : σ} {f : List (List Lit)} : EngineReachable e f → EngineReachable (Engine.reset e) []
  | resetSolver {e : σ} {f : List (List Lit)} : EngineReachable e f →
    EngineReachable (withSolver e (solver e).reset) []

theorem EngineReachable.solver_reachable (h : EngineReachable e f) : Reachable .words (solver e) f := by
  induction h with
  | new hn =>
    obtain ⟨ties, hn⟩ := solver_new hn
    rw [hn]
    exact .start ties
  | call c _ ih =>
    rw [solver_run]
    exact ih.runAll _
  | reset _ ih =>
    rw [solver_reset]
    exact ih.reset
  | resetSolver _ ih =>
    rw [solver_withSolver]
    exact ih.reset

/-- The engine after some calls. -/
def runCalls (e : σ) (cs : List κ) : σ := cs.foldl run e

/-- The calls on the solver that some calls come to. -/
def callsOf : σ → List κ → List Call
  | _, [] => []
  | e, c :: cs => calls e c ++ callsOf (run e c) cs

theorem EngineReachable.runAll (h : EngineReachable e f) (cs : List κ) :
    EngineReachable (runCalls e cs) (f ++ Call.acceptedAll (solver e) (callsOf e cs)) := by
  induction cs generalizing e f with
  | nil => rwa [callsOf, Call.acceptedAll, List.append_nil]
  | cons c cs ih =>
    have hr := ih (h.call c)
    rwa [solver_run, List.append_assoc, ← Call.acceptedAll_append] at hr

/-- What each of some calls keeps holds after all of them. -/
theorem EngineReachable.keep (h : EngineReachable e f) (cs : List κ) {P : σ → Prop} (he : P e)
    (hstep : ∀ {e f}, EngineReachable e f → P e → ∀ c ∈ cs, P (run e c)) : P (runCalls e cs) := by
  induction cs generalizing e f with
  | nil => exact he
  | cons c cs ih =>
    exact ih (h.call c) (hstep h he c List.mem_cons_self) fun h' he' d hd => hstep h' he' d (List.mem_cons_of_mem c hd)

/-- In the models that calls find, every accepted clause has a true literal. -/
theorem EngineReachable.exists_true_literal (h : EngineReachable e f) (hc : FindsModel e c)
    (hd : ∀ v : Var, v.index < (solver (run e c)).varCount → (solver (run e c)).hasEliminated v = false →
      (infoOf (solver (run e c)).vars v).decision = true) {ls : List Lit} (hls : ls ∈ f) :
    ∃ l ∈ ls, (solver (run e c)).modelValue l = .ok (some true) := by
  obtain ⟨cs, first, off, hsat, hrun⟩ := finds_model hc
  rw [hrun] at hd ⊢
  exact (h.solver_reachable.runAll cs).exists_true_literal hsat hd (List.mem_append_left _ hls)

end Runs

end ClauseLearning
