import ClauseLearning.Engine

/-!
# The recording engine

A `RecordingEngine` solves nothing. It records which calls were made, so that it shows what an encoding does. After a
given number of clauses it refuses more of them.
-/

namespace ClauseLearning

/-- A recorded call. -/
inductive RecordedCall
  | newVariable (number : Int32) (flags : VarFlags)
  | addClause (numbers : List Int32)
  | solve
deriving DecidableEq

/-- The calls so far, and the number of variables. -/
structure RecordingEngine where
  vars : Nat := 0
  clauses : Nat := 0
  maxClauses : Option Nat := none
  calls : Array RecordedCall := #[]

namespace RecordingEngine

def record (e : RecordingEngine) (c : RecordedCall) : RecordingEngine := { e with calls := e.calls.push c }

def newVariable (e : RecordingEngine) (f : VarFlags) : Int32 × RecordingEngine :=
  let number := Int32.ofNat (e.vars + 1)
  (number, { e with vars := e.vars + 1 }.record (.newVariable number f))

def addClause (e : RecordingEngine) (numbers : List Int32) : Except SolverError Bool × RecordingEngine :=
  if e.maxClauses = some e.clauses then (.error .incompleteClause, e)
  else (.ok true, { e with clauses := e.clauses + 1 }.record (.addClause numbers))

end RecordingEngine

instance : Engine RecordingEngine where
  newVariable f := .ofFunction fun e => let (n, e) := e.newVariable f; (.ok n, e)
  addClause numbers := .ofFunction fun e => e.addClause numbers
  solve := .ofFunction fun e => (.ok .unsat, e.record .solve)
  modelValue _ _ := .ok 0
  okay _ := true
  varCount e := e.vars
  reset e := { e with vars := 0, clauses := 0, calls := #[] }
  setDecisionLimit _ e := e
  report _ e := e

end ClauseLearning
