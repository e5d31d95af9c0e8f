import ClauseLearning.Simplification.Occurrences

/-!
# Variable elimination

A variable is eliminated by replacing all clauses that contain it by their resolvents on it, if that does not make the
formula grow beyond the configured limits. The clauses of one side are kept as a witness, by which a model of the
remaining clauses extends to the variable (`extendModel`).

* `resolve` : the resolvent of two clauses, by marks;
* `Solver.resolvents?` : all resolvents on a variable, unless a limit is exceeded;
* `Solver.eliminateVar?` : one variable;
* `Solver.eliminateVars` : all candidates, those in fewer clauses first;
* `Solver.dropLearnedWithEliminated` : learned clauses do not outlive their variables.
-/

namespace ClauseLearning

/-- Collects the literals of the second clause of a resolution that the first, whose literals are marked, does not
have. The answer is nothing if the first has the opposite of one of them. -/
def resolveRest (marks : Marks) (v : Var) : List Lit → Option (List Lit)
  | [] => some []
  | l :: ls =>
    if l.var = v ∨ marks.has l.code then resolveRest marks v ls
    else if marks.has (-l).code then none
    else (resolveRest marks v ls).map (l :: ·)

/-- The resolvent of two clauses on a variable, if it is not a tautology. The marks are left as they were. -/
def resolve (marks : Marks) (a b : List Lit) (v : Var) : Option (List Lit) × Marks :=
  let kept := a.filter fun l => l.var != v
  let marks := marks.markAll (kept.map Lit.code)
  let rest := resolveRest marks v b
  (rest.map (kept ++ ·), marks.unmarkAll (a.map Lit.code))

/-- Extends a model to the variable of a witness: the literal is false unless one of its clauses needs it. -/
def Witness.extend (model : Array (Option Bool)) (w : Witness) : Array (Option Bool) :=
  let isTrue := fun (l : Lit) => model.getD l.var.index none == some l.isPositive
  let needed := w.clauses.any fun c => !c.any isTrue
  model.setIfInBounds w.lit.var.index (some (if needed then w.lit.isPositive else w.lit.isNegative))

/-- Extends a model to all eliminated variables, the latest first. -/
def extendModel (witnesses : List Witness) (model : Array (Option Bool)) : Array (Option Bool) :=
  witnesses.foldl Witness.extend model

namespace Solver

/-- The clauses of a literal that are not deleted. -/
def occurrencesOf (s : Solver) (o : Occurrences) (l : Lit) : List ClauseRef := (o.of l).filter s.prop.clauses.isLive

/-- Adds the resolvents of some pairs of clauses to those found so far. The answer is nothing if one of them has more
than `maxLength` literals, or if there are more than `maxCount`. -/
def collectResolvents (d : Database) (v : Var) (maxLength maxCount : Nat) :
    List (ClauseRef × ClauseRef) → Array (List Lit) → Marks → Option (Array (List Lit)) × Marks
  | [], found, marks => (some found, marks)
  | (p, n) :: pairs, found, marks =>
    match resolve marks (d.get p).lits (d.get n).lits v with
    | (none, marks) => collectResolvents d v maxLength maxCount pairs found marks
    | (some resolvent, marks) =>
      if maxLength < resolvent.length ∨ found.size = maxCount then (none, marks)
      else collectResolvents d v maxLength maxCount pairs (found.push resolvent) marks

/-- All resolvents of clauses in `pos` with clauses in `neg`, unless a limit is exceeded. The number of resolvents is
limited by the number of clauses that they replace and the configured growth, a sum of 64 bits. -/
def resolvents? (s : Solver) (v : Var) (pos neg : List ClauseRef) : Option (List (List Lit)) × Solver :=
  let pairs := pos.flatMap fun p => neg.map fun n => (p, n)
  let sum := pos.length + neg.length + s.config.elimGrowLimit.toNat
  let s := s.noteSum .words sum
  let (found, marks) :=
    collectResolvents s.prop.clauses v s.config.elimResolventLimit.toNat (Counting.words.keep sum) pairs #[] s.litMarks
  (found.map Array.toList, { s with litMarks := marks })

/-- The witness for a variable: the clauses of the literal that has fewer of them. -/
def witness (s : Solver) (v : Var) (pos neg : List ClauseRef) : Witness :=
  let (l, refs) := if pos.length ≤ neg.length then (v.positive, pos) else (v.negative, neg)
  { lit := l, clauses := refs.map fun r => (s.prop.clauses.get r).lits.filter (· != l) }

/-- Eliminates a variable, if it occurs and the limits allow it. -/
def eliminateVar? (s : Solver) (o : Occurrences) (v : Var) : Bool × Occurrences × Solver :=
  let pos := s.occurrencesOf o v.positive
  let neg := s.occurrencesOf o v.negative
  let occurrences := pos.length + neg.length
  if occurrences = 0 ∨ s.config.elimOccurrenceLimit.toNat < occurrences then (false, o, s)
  else
    match s.resolvents? v pos neg with
    | (none, s) => (false, o, s)
    | (some resolvents, s) =>
      let s := { s with witnesses := s.witness v pos neg :: s.witnesses }
      let s := s.withClauses ((pos ++ neg).foldl Database.delete s.prop.clauses)
      let (o, s) := resolvents.foldl (fun (os : Occurrences × Solver) r => os.2.addDerived os.1 r) (o, s)
      let s := s.modifyVariable v ({ · with eliminated := true })
      (true, o, { s with heap := s.heap.setEnabled v false })

/-- Eliminates those of a list of candidates that are still unassigned and can be, and counts them. -/
def eliminateList : List Var → Nat → Occurrences → Solver → Nat × Solver
  | [], count, _, s => (count, s)
  | v :: vs, count, o, s =>
    if s.status = .unsat then (count, s)
    else if s.prop.trail.isAssigned v then eliminateList vs count o s
    else
      let (done, o, s) := s.eliminateVar? o v
      eliminateList vs (if done then count + 1 else count) o s

/-- The unassigned variables that are neither frozen nor eliminated, those in fewer clauses first. -/
def eliminationCandidates (s : Solver) (o : Occurrences) : List Var :=
  let vars := ((List.range s.varCount).map Var.mk).filter fun v =>
    let info := s.vars.getD v.index {}
    !info.frozen && !info.eliminated && !s.prop.trail.isAssigned v
  sortBy (fun v => o.count v.positive + o.count v.negative) vars

/-- Deletes the learned clauses that contain an eliminated variable. -/
def dropLearnedWithEliminated (s : Solver) : Solver :=
  let d := s.prop.clauses
  let refs := d.live.filter fun r => (d.get r).learned && (d.get r).lits.any fun l => s.hasEliminated l.var
  s.withClauses (refs.foldl Database.delete d)

/-- Eliminates as many variables as possible, and reports how many. -/
def eliminateVars (s : Solver) : Solver :=
  let (o, s) := s.buildOccurrences
  let (count, s) := eliminateList (s.eliminationCandidates o) 0 o s
  let s := s.dropLearnedWithEliminated
  s.report (.elimination count s.witnesses.length)

end Solver

end ClauseLearning
