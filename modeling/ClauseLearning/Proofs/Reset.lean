import ClauseLearning.Proofs.PendingClauses
import ClauseLearning.Proofs.Settings

/-!
# After a reset

* `NewWith` : a new state that was given the values of a configuration;
* `reset_starts_anew` : whatever calls were made before, a reset leaves the state of a new solver or engine that was
  given the configuration in force. So nothing that comes later depends on what was before.
-/

namespace ClauseLearning

variable {counting : Counting} {s : Solver} {f : List (List Lit)}

/-! ## New states -/

/-- A state that is a new one with the values of a configuration: they are accepted when they are given all at once, and
any updates of a new state that lead to the same values lead to the same state. -/
structure NewWith {σ : Type} (configure : σ → ConfigUpdate → Except SolverError Unit × σ) (config : σ → Config)
    (new : σ) (c : Config) (s : σ) : Prop where
  at_once : configure new c.update = (.ok (), s)
  by_updates (us : List ConfigUpdate) : config (us.foldl (fun s u => (configure s u).2) new) = c →
    us.foldl (fun s u => (configure s u).2) new = s

theorem Solver.foldl_configure {ties : TieOrder} (s : Solver) (us : List ConfigUpdate)
    (hs : s = { Solver.start counting ties with
      config := s.config
      heap := ({} : DecisionHeap).withDecay s.config.vsidsDecay
      clauseScale := ({} : ActivityScale).withDecay s.config.clauseActivityDecay }) :
    let t := us.foldl (fun s u => (s.configure u).2) s
    t = { Solver.start counting ties with
      config := t.config
      heap := ({} : DecisionHeap).withDecay t.config.vsidsDecay
      clauseScale := ({} : ActivityScale).withDecay t.config.clauseActivityDecay } := by
  induction us generalizing s with
  | nil => exact hs
  | cons u us ih =>
    refine ih (s.configure u).2 ?_
    unfold configure
    cases u.apply s.config with
    | error err => exact hs
    | ok config =>
      rw [hs]
      rfl

theorem Reachable.newWith_reset (h : Reachable counting s f) :
    NewWith Solver.configure Solver.config (Solver.start counting s.ties) s.config s.reset := by
  obtain ⟨haccepted, rfl⟩ := h.settings
  refine ⟨?_, fun us hus => ?_⟩
  · rw [Solver.configure, haccepted.apply_update]
    rfl
  · rw [Solver.foldl_configure (Solver.start _ s.ties) us rfl, hus]
    rfl

/-! ## Engines -/

section Engines

open SolverEngine (solver)
open CallableEngine (withSolver solver_withSolver)

variable {σ κ : Type} [Engine σ] [SolverEngine σ] [CallableEngine σ κ] {new : σ} {c : Config}

/-- Changes the configuration of the solver inside an engine, unless the update is refused. -/
def configureSolver (e : σ) (u : ConfigUpdate) : Except SolverError Unit × σ :=
  (((solver e).configure u).1, withSolver e ((solver e).configure u).2)

theorem foldl_configureSolver (htwice : ∀ s t, withSolver (withSolver new s) t = withSolver new t)
    (us : List ConfigUpdate) (s : Solver) :
    us.foldl (fun e u => (configureSolver e u).2) (withSolver new s) =
      withSolver new (us.foldl (fun s u => (s.configure u).2) s) := by
  induction us generalizing s with
  | nil => rfl
  | cons u us ih =>
    simp only [List.foldl_cons, configureSolver, solver_withSolver, htwice]
    exact ih _

theorem NewWith.withSolver (h : NewWith Solver.configure Solver.config (solver new) c s)
    (hself : withSolver new (solver new) = new)
    (htwice : ∀ s t, withSolver (withSolver new s) t = withSolver new t) :
    NewWith configureSolver (fun e => (solver e).config) new c (withSolver new s) := by
  refine ⟨by rw [configureSolver, h.at_once], fun us hus => ?_⟩
  have hfold := foldl_configureSolver htwice us (solver new)
  rw [hself] at hfold
  rw [hfold, solver_withSolver] at hus
  rw [hfold, h.by_updates us hus]

end Engines

/-- Whatever calls were made before, a reset leaves the state of a new solver, or of a new engine of the same kind and
mode, that was given the configuration in force. It orders ties as before. -/
theorem reset_starts_anew :
    (∀ {counting : Counting} {s : Solver} {f : List (List Lit)}, Reachable counting s f →
      NewWith Solver.configure Solver.config (Solver.start counting s.ties) s.config s.reset) ∧
    (∀ {e : PlainEngine} {f : List (List Lit)}, EngineReachable e f →
      NewWith configureSolver (fun e => e.solver.config) { solver := .start .words e.solver.ties } e.solver.config
        e.reset) ∧
    ∀ {e : SimplifyingEngine} {f : List (List Lit)}, EngineReachable e f →
      NewWith configureSolver (fun e => e.solver.config) { solver := .start .words e.solver.ties, mode := e.mode }
        e.solver.config e.reset :=
  ⟨fun h => h.newWith_reset,
    fun h => h.solver_reachable.newWith_reset.withSolver rfl fun _ _ => rfl,
    fun h => h.solver_reachable.newWith_reset.withSolver rfl fun _ _ => rfl⟩

/-- An engine that simplified once, and was given another configuration then. -/
def simplifiedEngine : SimplifyingEngine :=
  runCalls (.ofMode .once)
    [.newVariable { eliminate := true }, .addClause [1], .solve, .onSolver (.configure { subsumptionLimit := some 7 })]

/-- Switched off elimination, pending literals, the mark of the first search: nothing stays. The configuration does. -/
theorem reset_starts_anew_after_use :
    eliminatedSolver.eliminationOff = true ∧ pendingEngine.pending = [⟨2⟩] ∧
      simplifiedEngine.simplified = true ∧ simplifiedEngine.solver.config.subsumptionLimit = 7 ∧
    NewWith Solver.configure Solver.config (Solver.start .words .stable) eliminatedSolver.config
      eliminatedSolver.reset ∧
    NewWith configureSolver (fun e => e.solver.config) {} pendingEngine.solver.config pendingEngine.reset ∧
    NewWith configureSolver (fun e => e.solver.config) (.ofMode simplifiedEngine.mode) simplifiedEngine.solver.config
      simplifiedEngine.reset := by
  have hnew : EngineReachable (SimplifyingEngine.ofMode .once) [] := .new ⟨.stable, .once, rfl⟩
  refine ⟨by decide +kernel, by decide +kernel, by decide +kernel, by decide +kernel, ?_, ?_, ?_⟩
  · exact reset_starts_anew.1 reachable_eliminated
  · exact reset_starts_anew.2.1 reachable_pending
  · exact reset_starts_anew.2.2 (e := simplifiedEngine) (hnew.runAll _)

end ClauseLearning
