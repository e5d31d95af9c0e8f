import ClauseLearning.State

/-!
# Facts

Literals of level 0 are true for good. Once they are propagated, satisfied clauses and false literals can go
(`Propagator.applyFacts`), and the storage may be worth compacting (`Solver.tidy`).
-/

namespace ClauseLearning

/-- The unassigned part of a clause, unless a literal of the clause is true. After propagation it has at least two
literals. -/
def Trail.remainder (t : Trail) (c : Clause) : Option Clause :=
  if c.lits.any t.isTrue then none
  else some ((c.withLits? (c.lits.filter fun l => !t.isAssigned l.var)).getD c)

/-- Removes satisfied clauses and false literals. All assignments are facts without reason clauses afterwards, and the
trail is empty. -/
def Propagator.applyFacts (p : Propagator) : Propagator :=
  { trail := p.trail.settle
    clauses := p.clauses.sweep p.trail.remainder
    watches := p.watches.disable }

namespace Solver

/-- Makes use of new facts and reclaims storage, on level 0 after propagation. -/
def tidy (s : Solver) : Solver :=
  let s := if s.prop.trail.lits.isEmpty then s else { s with prop := s.prop.applyFacts }
  s.collectGarbage

end Solver

end ClauseLearning
