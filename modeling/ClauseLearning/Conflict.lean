import ClauseLearning.DecisionHeap
import ClauseLearning.Marks
import ClauseLearning.Propagation

/-!
# Conflict analysis

`analyze` turns a false clause into the clause to learn from it. Resolving with reasons in the reverse order of the
trail ends at the first unique implication point, a single literal of the conflict's level. Literals that the others
imply are left out (`isRedundant`).

What an analysis has to unmark at its end is kept in a list, which the next analysis finds empty (`VarMarks`).

The learned clause has the literal that it will make true in front, and after it a literal of the level to backtrack
to (`hoist`), so the two are right to watch afterwards.
-/

namespace ClauseLearning

/-- Marks by variable, and the variables that are to be unmarked. -/
structure VarMarks where
  marks : Marks := {}
  toClean : Array Var := #[]

/-- Makes room for `count` more variables. -/
def VarMarks.extend (m : VarMarks) (count : Nat) : VarMarks := { m with marks := m.marks.extend count }

/-- The state of an analysis. Marks are set for the variables of the current clause: those of `lower`, which belong to
levels below the conflict's, and the `open` ones, which belong to the conflict's level. -/
structure Analysis where
  lower : Array Lit := #[]
  openCount : Nat := 0
  /-- The clauses that were resolved. -/
  involved : Array ClauseRef := #[]
  /-- The variables of all literals that were ever in `lower`. -/
  toClean : Array Var := #[]
  marks : Marks
  heap : DecisionHeap

/-- What an analysis answers. -/
structure Lesson where
  clause : List Lit
  backtrackTo : Nat
  involved : List ClauseRef

namespace Analysis

/-- Adds a literal to the current clause and bumps its variable, unless it is there already or false for good. -/
def addLit (t : Trail) (a : Analysis) (l : Lit) : Analysis :=
  if 0 < t.level l.var ∧ !a.marks.has l.var.index then
    let a := { a with heap := a.heap.bump l.var, marks := a.marks.mark l.var.index }
    if t.level l.var = t.currentLevel then { a with openCount := a.openCount + 1 }
    else { a with lower := a.lower.push l, toClean := a.toClean.push l.var }
  else a

/-- Adds the literals of a clause that is resolved with the current one. -/
def addLits (t : Trail) (a : Analysis) (ls : List Lit) : Analysis := ls.foldl (addLit t) a

/-- Resolves the current clause with the reason of one of its literals. -/
def resolve (p : Propagator) (a : Analysis) (v : Var) : Analysis :=
  match p.trail.reason v with
  | .unit => a
  | .clause r =>
    addLits p.trail { a with involved := a.involved.push r } ((p.clauses.get r).lits.drop 1)

/-- Goes back over the first `n` literals of the trail, until the last open literal is found. -/
def walk (p : Propagator) : Nat → Analysis → Option Lit × Analysis
  | 0, a => (none, a)
  | n + 1, a =>
    match p.trail.lits[n]? with
    | none => walk p n a
    | some l =>
      if a.marks.has l.var.index then
        let a := { a with marks := a.marks.unmark l.var.index, openCount := a.openCount - 1 }
        if a.openCount = 0 then (some l, a) else walk p n (resolve p a l.var)
      else walk p n a

/-- Unmarks the variables in the list, and empties it. -/
def drain (a : Analysis) : VarMarks := { marks := a.marks.unmarkAll (a.toClean.toList.map Var.index), toClean := #[] }

end Analysis

/-- Whether all other literals of a literal's reason are in the clause whose variables are marked, or false for
good. -/
def isRedundant (p : Propagator) (marks : Marks) (l : Lit) : Bool :=
  match p.trail.reason l.var with
  | .unit => false
  | .clause r =>
    ((p.clauses.get r).lits.drop 1).all fun x => marks.has x.var.index || p.trail.level x.var == 0

/-- The clause of an implication point and lower literals: the implication point's opposite takes the first place, and
what was there goes to the end. -/
def assertingFirst (uip : Lit) : List Lit → List Lit
  | [] => [-uip]
  | l :: ls => -uip :: ls ++ [l]

/-- Moves a literal of the highest level to the front, by exchanging the front literal with each one of a higher level
in turn. -/
def hoist (level : Lit → Nat) (front : Lit) : List Lit → Lit × List Lit
  | [] => (front, [])
  | l :: ls =>
    if level front < level l then
      let (best, rest) := hoist level l ls
      (best, front :: rest)
    else
      let (best, rest) := hoist level front ls
      (best, l :: rest)

/-- The learned clause with a literal of the highest remaining level in second place, and that level. -/
def withSecondWatch (level : Lit → Nat) : List Lit → List Lit × Nat
  | a :: b :: rest =>
    let (second, rest) := hoist level b rest
    (a :: second :: rest, level second)
  | short => (short, 0)

/-- Learns from a false clause. A conflict on level 0 teaches the empty clause. -/
def analyze (p : Propagator) (heap : DecisionHeap) (marks : VarMarks) (conflict : ClauseRef) :
    Lesson × DecisionHeap × VarMarks :=
  if p.trail.currentLevel = 0 then ({ clause := [], backtrackTo := 0, involved := [] }, heap, marks)
  else
    let a : Analysis := { marks := marks.marks, toClean := marks.toClean, heap := heap, involved := #[conflict] }
    let a := Analysis.addLits p.trail a (p.clauses.get conflict).lits
    let (uip, a) := Analysis.walk p p.trail.lits.size a
    let clause :=
      match uip with
      | some l => assertingFirst l a.lower.toList
      | none => a.lower.toList
    let kept := clause.take 1 ++ (clause.drop 1).filter fun l => !isRedundant p a.marks l
    let (learned, backtrackTo) := withSecondWatch (fun l => p.trail.level l.var) kept
    ({ clause := learned, backtrackTo := backtrackTo, involved := a.involved.toList }, a.heap, a.drain)

end ClauseLearning
