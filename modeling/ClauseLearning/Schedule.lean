import ClauseLearning.Luby

/-!
# Counters, limits and restarts

A `Schedule` counts conflicts, decisions and restarts over the life of a solver, limits the conflicts and decisions of
a single search, and knows at how many conflicts the next restart is due. Restarts come at the partial sums of the
Luby sequence, scaled; these sums are numbers of 64 bits, unless they are counted in full (`Counting`). A sum of 64 bits
may overflow. Then it is kept without the bits beyond, or the program stops.
-/

namespace ClauseLearning

/-- How sums of conflict counts are kept. -/
inductive Counting
  /-- In 64 bits, so that sums wrap around. -/
  | words
  /-- As numbers of any size. -/
  | unbounded
deriving DecidableEq, Inhabited

/-- A sum, as far as it is kept. -/
def Counting.keep : Counting → Nat → Nat
  | .words, n => n % UInt64.size
  | .unbounded, n => n

/-- Whether a sum is greater than what is kept. -/
def Counting.overflows : Counting → Nat → Bool
  | .words, n => decide (UInt64.size ≤ n)
  | .unbounded, _ => false

/-- The counters and limits of a solver. -/
structure Schedule where
  conflicts : Nat := 0
  decisions : Nat := 0
  restarts : Nat := 0
  nextRestart : Nat := 0
  luby : Luby := {}
  conflictLimit : Option Nat := none
  decisionLimit : Option Nat := none
  /-- The conflicts and decisions of the current search. -/
  searchConflicts : Nat := 0
  searchDecisions : Nat := 0
  counting : Counting := .words

namespace Schedule

/-- Begins a search. -/
def startSearch (s : Schedule) : Schedule := { s with searchConflicts := 0, searchDecisions := 0 }

def countDecision (s : Schedule) : Schedule :=
  { s with decisions := s.decisions + 1, searchDecisions := s.searchDecisions + 1 }

def countConflict (s : Schedule) : Schedule :=
  { s with conflicts := s.conflicts + 1, searchConflicts := s.searchConflicts + 1 }

/-- Whether a limit allows nothing beyond what was used. -/
def reached (limit : Option Nat) (used : Nat) : Bool :=
  match limit with
  | some n => decide (n ≤ used)
  | none => false

/-- Whether another decision would exceed the limit. -/
def decisionLimitReached (s : Schedule) : Bool := reached s.decisionLimit s.searchDecisions

/-- Whether another conflict would exceed the limit. -/
def conflictLimitReached (s : Schedule) : Bool := reached s.conflictLimit s.searchConflicts

/-- Whether a restart is due. -/
def restartDue (s : Schedule) : Bool := s.nextRestart == s.conflicts

/-- The conflicts at which the restart after the one that is due comes, as a sum of any size. -/
def restartSum (s : Schedule) (scale : UInt64) : Nat := s.nextRestart + scale.toNat * s.luby.next.1

/-- Plans the restart after the one that is due. The first one, before any conflict, is not counted. -/
def planRestart (s : Schedule) (scale : UInt64) : Schedule :=
  { s with
    luby := s.luby.next.2
    nextRestart := s.counting.keep (s.restartSum scale)
    restarts := if 0 < s.conflicts then s.restarts + 1 else s.restarts }

/-- A number of conflicts within which a stretch of `length` conflicts without a restart begins. In 64 bits no restart
is planned beyond their range; counted in full, the sequence comes to a power of two of at least `length` in time. -/
def restBound (s : Schedule) (scale : UInt64) (length : Nat) : Nat :=
  match s.counting with
  | .words => UInt64.size
  | .unbounded => s.nextRestart + scale.toNat * (2 * (2 * length + 1) * (s.luby.count + 2 * length))

/-- Whether a reduction with the given interval is due. -/
def reductionDue (s : Schedule) (interval : UInt64) : Bool :=
  decide (0 < s.conflicts) && s.conflicts % interval.toNat == 0

end Schedule

end ClauseLearning
