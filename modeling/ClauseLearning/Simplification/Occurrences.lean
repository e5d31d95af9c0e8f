import ClauseLearning.Facts

/-!
# Occurrence lists

Simplification works on the irredundant clauses through lists of the clauses that contain each literal. The lists are
built for one pass and may mention clauses that the pass deletes. Clauses change while they are in use, so the watch
lists are switched off.

* `Solver.buildOccurrences` : the lists of all irredundant clauses;
* `Solver.addDerived` : adds a clause that the pass derives;
* `Solver.settleFacts` : propagation and its consequences between two passes.
-/

namespace ClauseLearning

/-- The irredundant clauses that contain each literal, by its code. -/
structure Occurrences where
  lists : Array (Array ClauseRef) := #[]

namespace Occurrences

/-- The clauses that contain a literal. -/
def of (o : Occurrences) (l : Lit) : List ClauseRef := (o.lists.getD l.code #[]).toList

/-- How many clauses the list of a literal mentions. -/
def count (o : Occurrences) (l : Lit) : Nat := (o.lists.getD l.code #[]).size

/-- Adds a clause to the lists of its literals. -/
def add (o : Occurrences) (r : ClauseRef) (ls : List Lit) : Occurrences :=
  { lists := ls.foldl (fun lists l => lists.modify l.code (·.push r)) o.lists }

/-- The lists of the irredundant clauses of a database over `varCount` variables. -/
def ofDatabase (varCount : Nat) (d : Database) : Occurrences :=
  d.live.foldl (fun o r => let c := d.get r; if c.learned then o else o.add r c.lits)
    { lists := Array.replicate (2 * varCount) #[] }

end Occurrences

namespace Solver

/-- The occurrence lists of the current clauses. -/
def buildOccurrences (s : Solver) : Occurrences × Solver :=
  (.ofDatabase s.varCount s.prop.clauses, { s with prop := { s.prop with watches := s.prop.watches.disable } })

/-- Adds a derived clause. A satisfied clause is dropped and false literals are left out; an empty clause ends it all,
a single literal is a new fact. -/
def addDerived (s : Solver) (o : Occurrences) (ls : List Lit) : Occurrences × Solver :=
  if ls.any s.prop.trail.isTrue then (o, s)
  else
    match ls.filter fun l => !s.prop.trail.isFalse l with
    | [] => (o, s.markUnsat)
    | [l] => (o, s.assign l .unit)
    | a :: b :: rest =>
      let (r, prop) := s.prop.addClause { first := a, second := b, others := rest }
      (o.add r (a :: b :: rest), { s with prop := prop })

/-- Propagates, then makes use of the facts. The answer is false if the clauses are unsatisfiable. -/
def settleFacts (s : Solver) : Bool × Solver :=
  if s.status = .unsat then (false, s)
  else
    match s.propagate with
    | (some _, s) => (false, s.markUnsat)
    | (none, s) => (true, s.tidy)

end Solver

end ClauseLearning
