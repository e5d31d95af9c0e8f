import ClauseLearning.Database
import ClauseLearning.Watch

/-!
# Unit propagation

A `Propagator` joins what propagation works on: the trail, the clauses and the watches on them.

* `Propagator.enableWatches` : builds the watch lists if they are switched off;
* `Propagator.visit` : what a true literal means for one clause that is watched through its opposite;
* `Propagator.scan` : visits a watch list;
* `Propagator.propagate` : visits the lists of all pending literals, until none is left or a clause is false.
-/

namespace ClauseLearning

/-- The assignment, the clauses and the watches on them. -/
structure Propagator where
  trail : Trail := {}
  clauses : Database := {}
  watches : Watches := {}

namespace Propagator

/-- Makes room for one more variable. -/
def addVar (p : Propagator) : Propagator :=
  { p with trail := p.trail.addVar, watches := p.watches.addVar }

/-- Makes an unassigned literal true. -/
def assign (p : Propagator) (l : Lit) (r : Reason) : Propagator := { p with trail := p.trail.assign l r }

/-- Stores a clause and watches it. -/
def addClause (p : Propagator) (c : Clause) : ClauseRef × Propagator :=
  let (r, clauses) := p.clauses.add c
  (r, { p with clauses := clauses, watches := p.watches.watch r c.first c.second })

/-! ## Building the watch lists -/

/-- Moves the two literals that are best to watch to the front of a clause, and watches them. -/
def watchAnew (p : Propagator) (r : ClauseRef) : Propagator :=
  let c := (p.clauses.get r).watchBest p.trail.watchRank
  { p with
    clauses := p.clauses.modify r fun _ => c
    watches := p.watches.watchPair r c.first c.second }

/-- Builds the watch lists if they are switched off. -/
def enableWatches (p : Propagator) : Propagator :=
  if p.watches.enabled then p
  else p.clauses.live.foldl watchAnew { p with watches := p.watches.cleared }

/-! ## Propagation -/

/-- What a visit to a watched clause ends with. -/
inductive Visit
  /-- The watch stays in its list. -/
  | keep (watch : Watch)
  /-- The watch left the list, because the clause is watched elsewhere or deleted. -/
  | drop
  /-- All literals of the clause are false. -/
  | conflict (watch : Watch)

/-- Visits a clause after `l` became true. A clause without a true literal is watched through another literal that is
not false, if it has one; else its last literal becomes true, or the clause is in conflict. -/
def visit (p : Propagator) (l : Lit) (w : Watch) : Visit × Propagator :=
  if p.trail.isTrue w.blocking then (.keep w, p)
  else
    let c := p.clauses.get w.ref
    if c.deleted then (.drop, p)
    else
      let c := if c.first = -l then c.swapWatched else c
      let w' : Watch := ⟨w.ref, c.first⟩
      if c.first ≠ w.blocking ∧ p.trail.isTrue c.first then
        (.keep w', { p with clauses := p.clauses.modify w.ref fun _ => c })
      else
        match c.replaceSecond? fun x => !p.trail.isFalse x with
        | some c =>
          (.drop,
            { p with
              clauses := p.clauses.modify w.ref fun _ => c
              watches := p.watches.add (-c.second) w' })
        | none =>
          let p := { p with clauses := p.clauses.modify w.ref fun _ => c }
          if p.trail.isFalse c.first then (.conflict w', p)
          else (.keep w', p.assign c.first (.clause w.ref))

/-- Visits the clauses of a list in turn, up to a conflict. Answers the watches that stay and the clause in
conflict. -/
def scan (l : Lit) : List Watch → Array Watch → Propagator → Option ClauseRef × Array Watch × Propagator
  | [], kept, p => (none, kept, p)
  | w :: ws, kept, p =>
    match p.visit l w with
    | (.keep w', p) => scan l ws (kept.push w') p
    | (.drop, p) => scan l ws kept p
    | (.conflict w', p) => (some w.ref, kept.push w' ++ ws, p)

/-- Visits all clauses whose watches `l` triggers. -/
def propagateLit (p : Propagator) (l : Lit) : Option ClauseRef × Propagator :=
  let ws := p.watches.list l
  let (conflict, kept, p) := scan l ws.toList #[] { p with watches := p.watches.setList l #[] }
  (conflict, { p with watches := p.watches.setList l kept })

/-- Propagates up to `fuel` pending literals. -/
def propagateFuel : Nat → Propagator → Option ClauseRef × Propagator
  | 0, p => (none, p)
  | fuel + 1, p =>
    match p.trail.pending? with
    | none => (none, p)
    | some l =>
      match p.propagateLit l with
      | (some conflict, p) => (some conflict, p)
      | (none, p) => propagateFuel fuel { p with trail := p.trail.advance }

/-- Propagates all pending literals, and answers a clause that became false if there is one. No more literals than
variables can be pending. -/
def propagate (p : Propagator) : Option ClauseRef × Propagator :=
  let p := p.enableWatches
  propagateFuel (p.trail.values.size + 1) p

end Propagator

end ClauseLearning
