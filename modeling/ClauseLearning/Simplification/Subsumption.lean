import ClauseLearning.Simplification.Occurrences

/-!
# Subsumption and strengthening

A clause makes every clause that contains it superfluous. If another clause contains it but for one literal, which it
has negated, that literal can be removed from the other clause.

* `relate` : how a clause relates to one whose literals are marked;
* `Solver.subsumeWith` : uses one clause against all others;
* `Solver.subsume` : uses every irredundant clause that is short enough, shorter ones first.
-/

namespace ClauseLearning

/-- How a clause relates to a given one. -/
inductive Relation
  | unrelated
  /-- It contains the given clause. -/
  | subsumed
  /-- It contains the given clause but for the opposite of this literal. -/
  | strengthened (l : Lit)
deriving DecidableEq

/-- Counts the marked literals, and finds the only one whose opposite is marked. The answer is nothing if there are
two of those. -/
def matchMarked (marks : Marks) : List Lit → Nat → Option Lit → Option (Nat × Option Lit)
  | [], count, negated => some (count, negated)
  | l :: ls, count, negated =>
    if marks.has l.code then matchMarked marks ls (count + 1) negated
    else if marks.has (-l).code then
      match negated with
      | some _ => none
      | none => matchMarked marks ls count (some l)
    else matchMarked marks ls count negated

/-- How a clause relates to one of `size` literals whose codes are marked. -/
def relate (marks : Marks) (size : Nat) (ls : List Lit) : Relation :=
  match matchMarked marks ls 0 none with
  | some (count, none) => if count = size then .subsumed else .unrelated
  | some (count, some l) => if count + 1 = size then .strengthened l else .unrelated
  | none => .unrelated

/-- The numbers of clauses that a pass removed and strengthened. -/
structure SubsumptionCount where
  removed : Nat := 0
  strengthened : Nat := 0

/-- What a subsumption pass works on. -/
structure SubsumptionPass where
  solver : Solver
  occurrences : Occurrences
  count : SubsumptionCount := {}

namespace SubsumptionPass

/-- Uses the marked clause `ref` of `size` literals against another clause. -/
def apply (size : Nat) (ref : ClauseRef) (p : SubsumptionPass) (other : ClauseRef) : SubsumptionPass :=
  let c := p.solver.prop.clauses.get other
  if p.solver.status = .unsat ∨ other = ref ∨ c.deleted ∨ c.size < size then p
  else
    match relate p.solver.litMarks size c.lits with
    | .unrelated => p
    | .subsumed =>
      { p with
        solver := p.solver.withClauses (p.solver.prop.clauses.delete other)
        count := { p.count with removed := p.count.removed + 1 } }
    | .strengthened l =>
      let s := p.solver.withClauses (p.solver.prop.clauses.delete other)
      let (o, s) := s.addDerived p.occurrences (c.lits.filter (· != l))
      { solver := s
        occurrences := o
        count := { p.count with strengthened := p.count.strengthened + 1 } }

/-- The clauses that contain a literal of `ls` or its opposite, for the literal for which there are fewest. Whatever
the clause of these literals subsumes or strengthens is among them. -/
def partners (o : Occurrences) (ls : List Lit) : List ClauseRef :=
  match firstMin? (fun l => o.count l + o.count (-l)) ls with
  | some l => o.of l ++ o.of (-l)
  | none => []

/-- Uses a clause against all others. -/
def useClause (p : SubsumptionPass) (ref : ClauseRef) : SubsumptionPass :=
  let c := p.solver.prop.clauses.get ref
  if p.solver.status = .unsat ∨ c.deleted then p
  else
    let codes := c.lits.map Lit.code
    let others := partners p.occurrences c.lits
    let p := { p with solver := { p.solver with litMarks := p.solver.litMarks.markAll codes } }
    let p := others.foldl (apply c.size ref) p
    { p with solver := { p.solver with litMarks := p.solver.litMarks.unmarkAll codes } }

end SubsumptionPass

namespace Solver

/-- The irredundant clauses of at most the configured length, shorter ones first. -/
def subsumptionCandidates (s : Solver) : List ClauseRef :=
  let d := s.prop.clauses
  let limit := s.config.subsumptionLimit.toNat
  sortBy (fun r => (d.get r).size)
    (d.live.filter fun r => !(d.get r).learned && decide ((d.get r).size ≤ limit))

/-- Uses every candidate against all other irredundant clauses, and reports the numbers of removed and strengthened
clauses. -/
def subsume (s : Solver) : Solver :=
  let (o, s) := s.buildOccurrences
  let p := s.subsumptionCandidates.foldl SubsumptionPass.useClause { solver := s, occurrences := o }
  p.solver.report (.subsumption p.count.removed p.count.strengthened)

end Solver

end ClauseLearning
