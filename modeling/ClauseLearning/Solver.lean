import ClauseLearning.Formula
import ClauseLearning.Search
import ClauseLearning.Simplification

/-!
# An incremental solver

The calls that users make on a `Solver`. Clauses can be added between solve calls, and a limited search answers
`Verdict.unknown` instead of running on.

* `Solver.newVar`, `Solver.addClause`, `Solver.addFormula` : building the formula;
* `Solver.solve`, `Solver.solveWith` : the search, `Solver.model?` and `Solver.modelValue` what it found;
* `Solver.simplify`, `Solver.eliminate` : simplification. Variables that later clauses use have to be frozen before;
* `Solver.configure`, `Solver.setDecisionLimit`, `Solver.setConflictLimit` : settings;
* `Solver.reset` : an empty solver of the same configuration.
-/

namespace ClauseLearning.Solver

/-! ## Variables -/

/-- Allocates a variable. A polarity is tried first in decisions on it; without `decision` there are none. -/
def newVar (s : Solver) (polarity : Option Bool) (decision : Bool) : Var × Solver :=
  s.allocate { polarity := polarity, decision := decision }

/-- The error for a variable that is not allocated. -/
def checkVar (s : Solver) (v : Var) : Except SolverError Unit :=
  if v.index < s.varCount then .ok () else .error (.unknownVariable v)

/-- Allows or forbids decisions on a variable. There are never any on an eliminated one. -/
def setDecision (s : Solver) (v : Var) (decision : Bool) : Except SolverError Unit × Solver :=
  match s.checkVar v with
  | .error e => (.error e, s)
  | .ok () =>
    let s := s.modifyVariable v ({ · with decision := decision })
    (.ok (), { s with heap := s.heap.setEnabled v (decision && !s.hasEliminated v) })

/-- Protects a variable from elimination, or takes the protection back. -/
def setFrozen (s : Solver) (v : Var) (frozen : Bool) : Except SolverError Unit × Solver :=
  match s.checkVar v with
  | .error e => (.error e, s)
  | .ok () => (.ok (), s.modifyVariable v ({ · with frozen := frozen }))

/-- Whether a variable was eliminated. -/
def isEliminated (s : Solver) (v : Var) : Except SolverError Bool := do
  s.checkVar v
  return s.hasEliminated v

/-! ## Clauses -/

/-- The error for a literal that a new clause cannot have. -/
def checkLit (s : Solver) (l : Lit) : Except SolverError Unit :=
  match s.checkVar l.var with
  | .error e => .error e
  | .ok () => if s.hasEliminated l.var then .error (.eliminatedVariable l.var) else .ok ()

/-- The error for the first literal that a new clause cannot have. -/
def checkClause (s : Solver) : List Lit → Except SolverError Unit
  | [] => .ok ()
  | l :: ls =>
    match s.checkLit l with
    | .error e => .error e
    | .ok () => checkClause s ls

/-- Stores a clause without its repetitions and false literals. Tautologies and satisfied clauses are not stored, an
empty clause ends it all, a single literal becomes a fact. -/
def load (s : Solver) (ls : List Lit) : Solver :=
  if s.status = .unsat then s
  else
    let s := s.rewind
    let ls := Lit.distinct ls
    if Lit.hasOpposites ls || ls.any s.prop.trail.isTrue then s
    else
      match ls.filter fun l => !s.prop.trail.isFalse l with
      | [] => s.markUnsat
      | [l] => s.assign l .unit
      | a :: b :: rest => { s with prop := (s.prop.addClause { first := a, second := b, others := rest }).2 }

/-- Propagates new facts, unless the clauses are unsatisfiable anyway. -/
def propagateFacts (s : Solver) : Solver :=
  if s.status = .unsat then s
  else
    match s.propagate with
    | (some _, s) => s.markUnsat
    | (none, s) => s

/-- Adds a clause. The answer is false if the formula is known to be unsatisfiable afterwards. -/
def addClause (s : Solver) (ls : List Lit) : Except SolverError Bool × Solver :=
  match s.checkClause ls with
  | .error e => (.error e, s)
  | .ok () =>
    let s := (s.load ls).propagateFacts
    (.ok s.okay, s)

/-- Adds clauses, up to the first that is refused. -/
def addClauses : List (List Lit) → Solver → Except SolverError Bool × Solver
  | [], s => (.ok s.okay, s)
  | c :: cs, s =>
    match s.addClause c with
    | (.error e, s) => (.error e, s)
    | (.ok _, s) => addClauses cs s

/-- Adds a formula, and allocates the variables it uses. -/
def addFormula (s : Solver) (f : Formula) : Except SolverError Bool × Solver :=
  addClauses f.clauses.toList (s.ensureVarCount f.varCount)

/-! ## Settings -/

/-- Changes the configuration, unless the update is refused. -/
def configure (s : Solver) (u : ConfigUpdate) : Except SolverError Unit × Solver :=
  match u.apply s.config with
  | .error e => (.error e, s)
  | .ok config =>
    (.ok (),
      { s with
        config := config
        heap := s.heap.withDecay config.vsidsDecay
        clauseScale := s.clauseScale.withDecay config.clauseActivityDecay })

/-- Limits the decisions of each solve call. -/
def setDecisionLimit (s : Solver) (limit : Option Nat) : Solver :=
  { s with schedule := { s.schedule with decisionLimit := limit } }

/-- Limits the conflicts of each solve call. -/
def setConflictLimit (s : Solver) (limit : Option Nat) : Solver :=
  { s with schedule := { s.schedule with conflictLimit := limit } }

/-! ## Simplification -/

/-- Subsumption and strengthening. The answer is false if the formula is known to be unsatisfiable afterwards. -/
def simplify (s : Solver) : Bool × Solver :=
  let s := s.rewind.simplifyFormula false
  (s.okay, s)

/-- Simplification that eliminates variables, for the last time if `turnOff` holds. The answer is false if the formula
is known to be unsatisfiable afterwards. -/
def eliminate (s : Solver) (turnOff : Bool) : Bool × Solver :=
  let s := s.rewind.simplifyFormula true
  let s := if turnOff then { s with eliminationOff := true } else s
  (s.okay, s)

/-! ## Solving -/

/-- The outcome that the state of the search stands for. -/
def verdict (s : Solver) : Verdict :=
  match s.status with
  | .sat => .sat
  | .unsat => .unsat
  | .unknown => .unknown

/-- Ends a solve call: a model is kept, extended to the eliminated variables, and the outcome is reported. -/
def conclude (s : Solver) : Verdict × Solver :=
  let v := s.verdict
  let s := if v = .sat then { s with model := extendModel s.witnesses s.prop.trail.values } else s
  let s := s.report (.solved v s.schedule.conflicts s.schedule.decisions s.schedule.restarts)
  (v, { s with lastVerdict := some v })

/-- Searches for a model, after a simplification that eliminates variables if `simplifyFirst` holds. -/
def solveWith (s : Solver) (simplifyFirst turnOff : Bool) : Verdict × Solver :=
  let s := if simplifyFirst then (s.eliminate turnOff).2 else s
  let s := s.rewind
  { s with schedule := s.schedule.startSearch }.search.conclude

/-- Searches for a model. -/
def solve (s : Solver) : Verdict × Solver := s.solveWith false false

/-- The value of a literal in the model. Variables that were allocated later have none, nor have those that neither
decisions nor clauses assigned. -/
def modelLit (s : Solver) (l : Lit) : Option Bool := (s.model.getD l.var.index none).map (· == l.isPositive)

/-- The value of a literal in the model that the last solve call found. -/
def modelValue (s : Solver) (l : Lit) : Except SolverError (Option Bool) :=
  match s.checkVar l.var with
  | .error e => .error e
  | .ok () => if s.lastVerdict = some .sat then .ok (s.modelLit l) else .error .noModel

/-- The literals that are true in the model that the last solve call found. -/
def model? (s : Solver) : Option (List Lit) :=
  if s.lastVerdict = some .sat then
    some ((List.range s.model.size).filterMap fun i => (s.model.getD i none).map (Var.mk i).lit)
  else none

/-- Removes all variables and clauses, limits and results. The configuration stays, and the way to count. -/
def reset (s : Solver) : Solver :=
  { config := s.config
    schedule := { counting := s.schedule.counting }
    ties := s.ties
    heap := ({} : DecisionHeap).withDecay s.config.vsidsDecay
    clauseScale := ({} : ActivityScale).withDecay s.config.clauseActivityDecay }

end ClauseLearning.Solver
