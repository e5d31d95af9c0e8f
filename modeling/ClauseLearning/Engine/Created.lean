import ClauseLearning.Engine.Plain
import ClauseLearning.Engine.Simplifying

/-!
# Engines by kind

A `CreatedEngine` is the engine of a kind, with the default configuration (`CreatedEngine.ofKind`) or an updated one
(`CreatedEngine.create`). The simplifying one simplifies once.
-/

namespace ClauseLearning

/-- An engine of either kind. -/
inductive CreatedEngine
  | plain (e : PlainEngine)
  | simplifying (e : SimplifyingEngine)

namespace CreatedEngine

/-- The engine of a kind. -/
def ofKind : EngineKind → CreatedEngine
  | .plain => .plain {}
  | .simp => .simplifying (.ofMode .once)

/-- The wrapped solver. -/
def solver : CreatedEngine → Solver
  | .plain e => e.solver
  | .simplifying e => e.solver

/-- Changes the wrapped solver. -/
def withSolver : CreatedEngine → Solver → CreatedEngine
  | .plain e, s => .plain { e with solver := s }
  | .simplifying e, s => .simplifying { e with solver := s }

/-- The engine of a kind with an updated configuration. -/
def create (kind : EngineKind) (u : ConfigUpdate) : Except SolverError CreatedEngine :=
  let e := ofKind kind
  match e.solver.configure u with
  | (.error err, _) => .error err
  | (.ok (), s) => .ok (e.withSolver s)

/-- Runs a computation on the engine inside, whichever it is. -/
def lift {α : Type} (onPlain : EngineM PlainEngine α) (onSimplifying : EngineM SimplifyingEngine α) :
    EngineM CreatedEngine α :=
  .ofFunction fun
    | .plain e => let (r, e) := onPlain.exec e; (r, .plain e)
    | .simplifying e => let (r, e) := onSimplifying.exec e; (r, .simplifying e)

end CreatedEngine

instance : Engine CreatedEngine where
  newVariable f := CreatedEngine.lift (Engine.newVariable f) (Engine.newVariable f)
  addClause numbers := CreatedEngine.lift (Engine.addClause numbers) (Engine.addClause numbers)
  solve := CreatedEngine.lift Engine.solve Engine.solve
  modelValue e := e.solver.valueOf
  okay e := e.solver.okay
  varCount e := e.solver.varCount
  reset
    | .plain e => .plain e.reset
    | .simplifying e => .simplifying e.reset
  setDecisionLimit limit e := e.withSolver (e.solver.setDecisionLimit limit)
  report event e := e.withSolver (e.solver.report event)

end ClauseLearning
