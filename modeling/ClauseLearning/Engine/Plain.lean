import ClauseLearning.Engine

/-!
# The plain engine

A `PlainEngine` only searches. Clauses come as a stream of numbers (`PlainEngine.put`): literals, each clause ended by
a zero. Variables are allocated as the stream mentions them.
-/

namespace ClauseLearning

/-- A solver and the literals of the clause that is not ended yet. -/
structure PlainEngine where
  solver : Solver := {}
  pending : List Lit := []

namespace PlainEngine

/-- Allocates a default variable, and answers its number. -/
def nextVariable (e : PlainEngine) : Int32 × PlainEngine :=
  let (v, s) := e.solver.newVar none true
  (v.number, { e with solver := s })

/-- Allocates a variable. -/
def newVariable (e : PlainEngine) (f : VarFlags) : Int32 × PlainEngine :=
  let (v, s) := e.solver.newVar f.polarity (!f.noDecision)
  (v.number, { e with solver := s })

/-- Ends the pending clause and adds it to the formula. -/
def endClause (e : PlainEngine) : Except SolverError Bool × PlainEngine :=
  let (r, s) := e.solver.addClause e.pending
  (r, { solver := s, pending := [] })

/-- Adds a literal to the pending clause, or ends the clause with 0. A number that is no literal changes nothing. -/
def put (e : PlainEngine) (number : Int32) : Except SolverError Unit × PlainEngine :=
  if number = 0 then
    let (r, e) := e.endClause
    (r.map fun _ => (), e)
  else
    match litOf number with
    | .error err => (.error err, e)
    | .ok l =>
      (.ok (), { solver := e.solver.ensureVarCount (l.var.index + 1), pending := e.pending ++ [l] })

/-- Puts numbers in turn, up to the first that is refused. -/
def putAll : List Int32 → PlainEngine → Except SolverError Unit × PlainEngine
  | [], e => (.ok (), e)
  | n :: ns, e =>
    match e.put n with
    | (.error err, e) => (.error err, e)
    | (.ok (), e) => putAll ns e

/-- Puts the literals of a clause and ends it. The numbers are checked first. -/
def addClause (e : PlainEngine) (numbers : List Int32) : Except SolverError Bool × PlainEngine :=
  match litsOf numbers with
  | .error err => (.error err, e)
  | .ok _ =>
    match putAll (numbers ++ [0]) e with
    | (.error err, e) => (.error err, e)
    | (.ok (), e) => (.ok e.solver.okay, e)

/-- Searches for a model, unless a clause is pending. -/
def solve (e : PlainEngine) : Except SolverError Verdict × PlainEngine :=
  if e.pending.isEmpty then
    let (v, s) := e.solver.solve
    (.ok v, { e with solver := s })
  else (.error .incompleteClause, e)

def setDecisionLimit (e : PlainEngine) (limit : Option Nat) : PlainEngine :=
  { e with solver := e.solver.setDecisionLimit limit }

/-- Searches with a limit on decisions, which a negative number lifts, and answers an exit code. -/
def solveLimited (e : PlainEngine) (limit : Int) : Except SolverError Nat × PlainEngine :=
  let (r, e) := (e.setDecisionLimit (if limit < 0 then none else some limit.toNat)).solve
  (r.map Verdict.exitCode, e)

/-- Removes all variables and clauses, the pending one included. -/
def reset (e : PlainEngine) : PlainEngine := { solver := e.solver.reset }

end PlainEngine

instance : Engine PlainEngine where
  newVariable f := .ofFunction fun e => let (n, e) := e.newVariable f; (.ok n, e)
  addClause numbers := .ofFunction fun e => e.addClause numbers
  solve := .ofFunction fun e => e.solve
  modelValue e := e.solver.valueOf
  okay e := e.solver.okay
  varCount e := e.solver.varCount
  reset := PlainEngine.reset
  setDecisionLimit limit e := e.setDecisionLimit limit
  report event e := { e with solver := e.solver.report event }

end ClauseLearning
