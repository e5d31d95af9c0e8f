import ClauseLearning.Facts

/-!
# The search

* `Solver.makeDecision` : makes a decision;
* `Solver.findConflict` : propagates and decides until a clause is false, every candidate is assigned or a limit is
  reached;
* `Solver.learn` : learns from a false clause, backtracks and makes the first literal of the learned clause true;
* `Solver.step` : one conflict of the search, after the restart and the reductions that are due;
* `Solver.search` : steps until the search ends.

A search without restarts has at most `(n + 1) ^ (n + 1)` conflicts over `n` variables: from one to the next, the
numbers of variables assigned on level 0, on level 1 and so on grow lexicographically. Restarts become so rare that
there is time for all of them (`Schedule.restBound`). So `Solver.stepBound` steps always suffice.
-/

namespace ClauseLearning

namespace Solver

/-! ## Decisions -/

/-- The value to try first for a variable: the user's choice or the value it had last. -/
def preferredValue (s : Solver) (v : Var) : Bool :=
  ((s.vars.getD v.index {}).polarity).getD (s.prop.trail.phase v)

/-- Assigns the best unassigned candidate on a new level. The answer is false if there is none. -/
def makeDecision (s : Solver) : Bool × Solver :=
  let trail := s.prop.trail
  let (candidate, heap) := s.heap.find? fun v => !trail.isAssigned v
  let s := { s with heap := heap }
  match candidate with
  | none => (false, s)
  | some v =>
    let s := { s with prop := { s.prop with trail := s.prop.trail.openLevel } }
    (true, s.assign (v.lit (s.preferredValue v)) .unit)

/-! ## The next conflict -/

/-- How the search for a conflict ends. -/
inductive Outcome
  /-- All candidates are assigned. -/
  | model
  /-- The decision limit is reached. -/
  | interrupted
  /-- A clause is false. -/
  | conflict (ref : ClauseRef)
deriving DecidableEq

/-- Makes use of new facts if there is no decision in force. -/
def tidyOnLevelZero (s : Solver) : Solver :=
  if s.currentLevel = 0 then
    let s := s.tidy
    { s with prop := s.prop.enableWatches }
  else s

/-- Propagates and makes up to `fuel` decisions. -/
def findConflictFuel : Nat → Solver → Outcome × Solver
  | 0, s => (.interrupted, s)
  | fuel + 1, s =>
    match s.propagate with
    | (some r, s) => (.conflict r, s)
    | (none, s) =>
      let s := s.tidyOnLevelZero
      if s.schedule.decisionLimitReached then (.interrupted, s)
      else
        match s.makeDecision with
        | (false, s) => (.model, s)
        | (true, s) => findConflictFuel fuel { s with schedule := s.schedule.countDecision }

/-- Propagates and decides. Every decision assigns a variable, so there are no more decisions than variables. -/
def findConflict (s : Solver) : Outcome × Solver := findConflictFuel (s.varCount + 1) s

/-! ## Learning -/

/-- The number of decision levels that the variables of some literals belong to. -/
def glue (s : Solver) (ls : List Lit) : Nat × Solver :=
  let (glue, marks) := s.litMarks.countDistinct (ls.map fun l => s.prop.trail.level l.var)
  (glue, { s with litMarks := marks })

/-- Updates the activity of a clause that took part in a conflict, and the glue and tier of a learned one. -/
def bumpClause (s : Solver) (r : ClauseRef) : Solver :=
  let (clauses, scale) := s.prop.clauses.bumpActivity s.clauseScale r
  let s := { s.withClauses clauses with clauseScale := scale }
  let c := s.prop.clauses.get r
  if c.learned then
    let (glue, s) := s.glue c.lits
    let clauses := s.prop.clauses.modify r ({ · with active := true })
    if glue < c.glue then
      s.withClauses ((clauses.modify r ({ · with glue := Clause.storedGlue glue })).setTier r (Tier.ofGlue glue))
    else s.withClauses clauses
  else s

/-- Decays the activities of clauses and variables. -/
def decay (s : Solver) : Solver :=
  let (clauses, scale) := s.prop.clauses.decayActivities s.clauseScale
  { s.withClauses clauses with clauseScale := scale, heap := s.heap.decay }

/-- Stores a learned clause, if it is long enough, and makes its first literal true. The level of that literal is
still the conflict's, so the clause joins one level less than its literals show. -/
def assertLearned (s : Solver) : List Lit → Solver
  | [] => s.markUnsat
  | [l] => s.assign l .unit
  | a :: b :: rest =>
    let (glue, s) := s.glue (a :: b :: rest)
    let glue := glue - 1
    let (r, prop) :=
      s.prop.addClause
        { first := a, second := b, others := rest, tier := Tier.ofGlue glue, glue := Clause.storedGlue glue }
    { s with prop := prop }.assign a (.clause r)

/-- Learns from a false clause. -/
def learn (s : Solver) (conflict : ClauseRef) : Solver :=
  let (lesson, heap, marks) := analyze s.prop s.heap s.varMarks conflict
  let s := { s with heap := heap, varMarks := marks }
  let s := s.report (.learned s.currentLevel lesson.clause lesson.backtrackTo)
  let s := (lesson.involved.foldl bumpClause s).decay
  (s.backtrack lesson.backtrackTo).assertLearned lesson.clause

/-! ## Steps -/

/-- Searches up to the next conflict and learns from it. -/
def conflictStep (s : Solver) : Solver :=
  match s.findConflict with
  | (.model, s) => { s with status := .sat }
  | (.interrupted, s) => { s with interrupted := true }
  | (.conflict r, s) => { s with schedule := s.schedule.countConflict }.learn r

/-- Plans the restart after the one that is due. -/
def planRestart (s : Solver) : Solver :=
  let scale := s.config.lubyRestartIntervalScale
  { s.noteSum s.schedule.counting (s.schedule.restartSum scale) with schedule := s.schedule.planRestart scale }

/-- Restarts if that is due. The first step of a solver's life plans the first restart and reports none. -/
def restartIfDue (s : Solver) : Solver :=
  if s.schedule.restartDue then
    let s := s.planRestart
    let s :=
      if 0 < s.schedule.conflicts then s.report (.restarted s.schedule.restarts s.schedule.conflicts) else s
    s.backtrack 0
  else s

/-- Reduces the clauses of the local and of the mid tier as it is due. -/
def reduceIfDue (s : Solver) : Solver :=
  let s :=
    if s.schedule.reductionDue s.config.reduceLocalsInterval then
      let (event, prop) := s.prop.reduceLocals s.ties
      { s with prop := prop }.report event
    else s
  if s.schedule.reductionDue s.config.reduceMidsInterval then
    let (event, prop) := s.prop.reduceMids
    { s with prop := prop }.report event
  else s

/-- One step of the search. The answer is false if the search is over. -/
def step (s : Solver) : Bool × Solver :=
  if s.status ≠ .unknown ∨ s.interrupted then (false, s)
  else if s.schedule.conflictLimitReached then
    (false, { s.report .conflictLimitReached with interrupted := true })
  else (true, s.restartIfDue.reduceIfDue.conflictStep)

/-- Up to `fuel` steps. -/
def searchFuel : Nat → Solver → Solver
  | 0, s => s
  | fuel + 1, s =>
    match s.step with
    | (true, s) => searchFuel fuel s
    | (false, s) => s

/-- More conflicts than a search over `n` variables has without a restart. -/
def conflictBound (n : Nat) : Nat := Nat.pow (n + 1) (n + 1)

/-- A number of steps after which every search is over. -/
def stepBound (s : Solver) : Nat :=
  let length := conflictBound s.varCount
  s.schedule.restBound s.config.lubyRestartIntervalScale length + length + 2

/-- Steps until the search is over. -/
def search (s : Solver) : Solver := searchFuel s.stepBound s

end Solver

end ClauseLearning
