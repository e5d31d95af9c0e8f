import ClauseLearning.Config
import ClauseLearning.Conflict
import ClauseLearning.Reduction
import ClauseLearning.Schedule

/-!
# The solver's state

A `Solver` is all that a solver knows between two calls. This module holds the state and the small operations that
the larger ones share: allocating a variable, assigning, backtracking, reporting an event.
-/

namespace ClauseLearning

/-- What users say about a variable, and whether it was eliminated. -/
structure Variable where
  /-- The value to try first, in place of the saved phase. -/
  polarity : Option Bool := none
  /-- Whether decisions may be made on it. -/
  decision : Bool := true
  /-- Whether it is protected from elimination. -/
  frozen : Bool := false
  eliminated : Bool := false
deriving Inhabited, DecidableEq

/-- The clauses that went with an eliminated variable, on the side of the literal with fewer of them. Each clause is
given by its other literals. -/
structure Witness where
  lit : Lit
  clauses : List (List Lit)
deriving DecidableEq

/-- What is known about the satisfiability of the current clauses. -/
inductive Status
  | unknown
  | sat
  | unsat
deriving DecidableEq, Inhabited

/-- The state of a solver. -/
structure Solver where
  config : Config := {}
  vars : Array Variable := #[]
  prop : Propagator := {}
  heap : DecisionHeap := {}
  clauseScale : ActivityScale := {}
  schedule : Schedule := {}
  /-- The witnesses of eliminated variables, the latest first. -/
  witnesses : List Witness := []
  eliminationOff : Bool := false
  /-- Which one of several local clauses of the same activity is deleted first. -/
  ties : TieOrder := .stable
  /-- Marks by literal code or by decision level. Clear between uses. -/
  litMarks : Marks := ⟨#[false]⟩
  /-- Marks by variable, for analyses. Clear between uses. -/
  varMarks : VarMarks := {}
  status : Status := .unknown
  /-- Set when a limit ended the search. -/
  interrupted : Bool := false
  /-- Set when a sum overflows. Programs that check their arithmetic stop there, others go on with what they keep of the
  sum. -/
  overflowed : Bool := false
  /-- The outcome of the last solve call. -/
  lastVerdict : Option Verdict := none
  /-- The model that the last solve call found, if it found one. -/
  model : Array (Option Bool) := #[]
  /-- The events since the journal was last read, in order. -/
  journal : Array Event := #[]
deriving Inhabited

namespace Solver

/-- A solver without variables and clauses. -/
def empty : Solver := {}

/-- A solver without variables and clauses, a way to count and an order of ties. -/
def start (counting : Counting) (ties : TieOrder) : Solver := { schedule := { counting := counting }, ties := ties }

/-- Reports an event, unless a sum overflowed before. -/
@[inline] def report (s : Solver) (e : Event) : Solver :=
  { s with journal := if s.overflowed then s.journal else s.journal.push e }

/-- Notes whether a sum overflows. -/
def noteSum (s : Solver) (counting : Counting) (sum : Nat) : Solver :=
  { s with overflowed := s.overflowed || counting.overflows sum }

/-- The events in the journal, and the solver with an empty one. -/
def readJournal (s : Solver) : Array Event × Solver := (s.journal, { s with journal := #[] })

/-- The number of allocated variables. -/
def varCount (s : Solver) : Nat := s.vars.size

/-- Whether a variable was eliminated. -/
def hasEliminated (s : Solver) (v : Var) : Bool := (s.vars.getD v.index {}).eliminated

/-- Changes what is known about a variable. -/
def modifyVariable (s : Solver) (v : Var) (f : Variable → Variable) : Solver :=
  { s with vars := s.vars.modify v.index f }

/-- Allocates a variable. -/
def allocate (s : Solver) (info : Variable) : Var × Solver :=
  let v : Var := ⟨s.varCount⟩
  (v,
    { s with
      vars := s.vars.push info
      prop := s.prop.addVar
      heap := s.heap.addVar.setEnabled v info.decision
      litMarks := s.litMarks.extend 2
      varMarks := s.varMarks.extend 1 })

/-- Allocates `count` variables with the default properties. -/
def allocateMany : Nat → Solver → Solver
  | 0, s => s
  | count + 1, s => allocateMany count (s.allocate {}).2

/-- Allocates default variables until there are at least `count`. -/
def ensureVarCount (s : Solver) (count : Nat) : Solver := allocateMany (count - s.varCount) s

/-- Whether the clauses are not known to be unsatisfiable. -/
def okay (s : Solver) : Bool := s.status != .unsat

@[inline] def markUnsat (s : Solver) : Solver := { s with status := .unsat }

/-- The number of decisions in force. -/
def currentLevel (s : Solver) : Nat := s.prop.trail.currentLevel

/-- Changes the clause database. -/
@[inline] def withClauses (s : Solver) (d : Database) : Solver := { s with prop := { s.prop with clauses := d } }

/-- Makes an unassigned literal true. -/
@[inline] def assign (s : Solver) (l : Lit) (r : Reason) : Solver := { s with prop := s.prop.assign l r }

/-- Undoes all decision levels above `level`. Variables that become unassigned are candidates for decisions again. -/
def backtrack (s : Solver) (level : Nat) : Solver :=
  let (trail, undone) := s.prop.trail.backtrack level
  { s with
    prop := { s.prop with trail := trail }
    heap := undone.foldl (fun h l => h.makeAvailable l.var) s.heap }

/-- Undoes all decisions before the clauses change, and forgets that they were satisfiable. -/
def rewind (s : Solver) : Solver :=
  let status : Status := if s.status = .sat then .unknown else s.status
  { s with interrupted := false, status := status }.backtrack 0

/-- Propagates, and answers a clause that became false if there is one. -/
def propagate (s : Solver) : Option ClauseRef × Solver :=
  let (conflict, prop) := s.prop.propagate
  (conflict, { s with prop := prop })

/-- Compacts the clause storage if that is worth it. The assignment consists of facts at this point, so no reason
refers to a clause. -/
def collectGarbage (s : Solver) : Solver :=
  match s.prop.clauses.collect? with
  | none => s
  | some (event, clauses) =>
    { s with prop := { s.prop with clauses := clauses, watches := s.prop.watches.disable } }.report event

end Solver

end ClauseLearning
