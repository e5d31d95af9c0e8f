import ClauseLearning.Clause

/-!
# The trail

A `Trail` is the current partial assignment with its history: the value of each variable, the literals assigned since
level 0 was last cleared, in order, where each decision level begins, and for each assigned variable its level and its
reason. Literals from position `head` on still wait for propagation.

* `Trail.value`, `Trail.isTrue`, `Trail.isFalse` : the assignment;
* `Trail.assign`, `Trail.openLevel`, `Trail.backtrack`, `Trail.settle` : the ways in which it changes.

Level and reason of an unassigned variable are those of its last assignment and mean nothing.
-/

namespace ClauseLearning

/-- Why a literal is true. -/
inductive Reason
  /-- A decision, or a fact of level 0. -/
  | unit
  /-- All other literals of a clause are false. The clause has the literal in front. -/
  | clause (ref : ClauseRef)
deriving DecidableEq, Inhabited

/-- The assignment and its history. -/
structure Trail where
  values : Array (Option Bool) := #[]
  /-- The value each variable had when it was last unassigned. -/
  phases : Array Bool := #[]
  reasons : Array Reason := #[]
  levels : Array Nat := #[]
  lits : Array Lit := #[]
  head : Nat := 0
  /-- The position in `lits` at which each decision level begins. -/
  starts : Array Nat := #[]

namespace Trail

/-- Makes room for one more variable. -/
def addVar (t : Trail) : Trail :=
  { t with
    values := t.values.push none
    phases := t.phases.push false
    reasons := t.reasons.push .unit
    levels := t.levels.push 0 }

def value (t : Trail) (v : Var) : Option Bool := t.values.getD v.index none

def phase (t : Trail) (v : Var) : Bool := t.phases.getD v.index false

def reason (t : Trail) (v : Var) : Reason := t.reasons.getD v.index .unit

def level (t : Trail) (v : Var) : Nat := t.levels.getD v.index 0

def isTrue (t : Trail) (l : Lit) : Bool :=
  match t.value l.var with
  | some b => b == l.isPositive
  | none => false

def isFalse (t : Trail) (l : Lit) : Bool :=
  match t.value l.var with
  | some b => b == l.isNegative
  | none => false

def isAssigned (t : Trail) (v : Var) : Bool := (t.value v).isSome

/-- The number of decisions in force. -/
def currentLevel (t : Trail) : Nat := t.starts.size

/-- The next literal to propagate. -/
def pending? (t : Trail) : Option Lit := t.lits[t.head]?

/-- Records that the next literal has been propagated. -/
def advance (t : Trail) : Trail := { t with head := t.head + 1 }

/-- Makes an unassigned literal true on the current level. -/
def assign (t : Trail) (l : Lit) (r : Reason) : Trail :=
  { t with
    values := t.values.setIfInBounds l.var.index (some l.isPositive)
    reasons := t.reasons.setIfInBounds l.var.index r
    levels := t.levels.setIfInBounds l.var.index t.starts.size
    lits := t.lits.push l }

/-- Begins a decision level. The decision itself is assigned afterwards. -/
def openLevel (t : Trail) : Trail := { t with starts := t.starts.push t.lits.size }

/-- Unassigns a variable and saves its value as phase. -/
def unassign (t : Trail) (v : Var) : Trail :=
  match t.value v with
  | none => t
  | some b =>
    { t with
      values := t.values.setIfInBounds v.index none
      phases := t.phases.setIfInBounds v.index b }

/-- Undoes all levels above `level`, and answers the literals that became unassigned, in the order of their
assignment. -/
def backtrack (t : Trail) (level : Nat) : Trail × List Lit :=
  if t.currentLevel ≤ level then (t, [])
  else
    let keep := t.starts.getD level 0
    let undone := t.lits.toList.drop keep
    (undone.foldl (fun t l => t.unassign l.var)
      { t with lits := t.lits.take keep, head := keep, starts := t.starts.take level }, undone)

/-- Turns the literals of level 0 into facts: they lose their reasons and leave the trail. -/
def settle (t : Trail) : Trail :=
  { t.lits.foldl (fun t l => { t with reasons := t.reasons.setIfInBounds l.var.index .unit }) t with
    lits := #[], head := 0 }

end Trail

end ClauseLearning
