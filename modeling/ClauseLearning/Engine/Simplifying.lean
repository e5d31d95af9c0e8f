import ClauseLearning.Engine

/-!
# The simplifying engine

A `SimplifyingEngine` simplifies the formula and eliminates variables before it searches: never, before the first
solve call only, or before each of them.
-/

namespace ClauseLearning

/-- When to simplify. -/
inductive SimplifyMode
  | never
  /-- Before the first solve call, which also switches elimination off. -/
  | once
  | always
deriving DecidableEq, Inhabited

/-- A solver with a rule for simplification. -/
structure SimplifyingEngine where
  solver : Solver := {}
  mode : SimplifyMode
  simplified : Bool := false

namespace SimplifyingEngine

def ofMode (mode : SimplifyMode) : SimplifyingEngine := { mode := mode }

/-- Allocates a variable, frozen unless it may be eliminated. -/
def newVariable (e : SimplifyingEngine) (f : VarFlags) : Int32 × SimplifyingEngine :=
  let (v, s) :=
    e.solver.allocate { polarity := f.polarity, decision := !f.noDecision, frozen := !f.eliminate }
  (v.number, { e with solver := s })

/-- Adds a clause. -/
def addClause (e : SimplifyingEngine) (numbers : List Int32) : Except SolverError Bool × SimplifyingEngine :=
  match litsOf numbers with
  | .error err => (.error err, e)
  | .ok ls =>
    let (r, s) := e.solver.addClause ls
    (r, { e with solver := s })

/-- Searches for a model, after simplification as the mode says. -/
def solve (e : SimplifyingEngine) : Verdict × SimplifyingEngine :=
  match e.mode with
  | .never =>
    let (v, s) := e.solver.solve
    (v, { e with solver := s })
  | .once =>
    let (v, s) := e.solver.solveWith (!e.simplified) (!e.simplified)
    (v, { e with solver := s, simplified := true })
  | .always =>
    let (v, s) := e.solver.solveWith true false
    (v, { e with solver := s })

/-- Removes all variables and clauses. The next solve call is a first one again. -/
def reset (e : SimplifyingEngine) : SimplifyingEngine := { e with solver := e.solver.reset, simplified := false }

/-- Allows or forbids decisions on the variable of a number. -/
def setDecision (e : SimplifyingEngine) (number : Int32) (decision : Bool) :
    Except SolverError Unit × SimplifyingEngine :=
  match varOf number with
  | .error err => (.error err, e)
  | .ok v =>
    let (r, s) := e.solver.setDecision v decision
    (r, { e with solver := s })

/-- Protects the variable of a number from elimination, or takes the protection back. -/
def setFrozen (e : SimplifyingEngine) (number : Int32) (frozen : Bool) : Except SolverError Unit × SimplifyingEngine :=
  match varOf number with
  | .error err => (.error err, e)
  | .ok v =>
    let (r, s) := e.solver.setFrozen v frozen
    (r, { e with solver := s })

/-- Whether the variable of a number was eliminated. -/
def isEliminated (e : SimplifyingEngine) (number : Int32) : Except SolverError Bool :=
  match varOf number with
  | .error err => .error err
  | .ok v => e.solver.isEliminated v

end SimplifyingEngine

instance : Engine SimplifyingEngine where
  newVariable f := .ofFunction fun e => let (n, e) := e.newVariable f; (.ok n, e)
  addClause numbers := .ofFunction fun e => e.addClause numbers
  solve := .ofFunction fun e => let (v, e) := e.solve; (.ok v, e)
  modelValue e := e.solver.valueOf
  okay e := e.solver.okay
  varCount e := e.solver.varCount
  reset := SimplifyingEngine.reset
  setDecisionLimit limit e := { e with solver := e.solver.setDecisionLimit limit }
  report event e := { e with solver := e.solver.report event }

end ClauseLearning
