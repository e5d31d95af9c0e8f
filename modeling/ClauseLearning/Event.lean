import ClauseLearning.Literal

/-!
# Events of a run

* `Verdict` : the outcome of a solve call;
* `Event` : what a run reports about itself, with `Event.text` its wording, `Event.detail` its level of detail and
  `Event.source` the part of the program that it comes from;
* `Detail.shows` : which events a chosen level of detail lets through.
-/

namespace ClauseLearning

/-- The outcome of a solve call. It is unknown when a limit ended the search. -/
inductive Verdict
  | sat
  | unsat
  | unknown
deriving DecidableEq, Inhabited

namespace Verdict

def name : Verdict → String
  | .sat => "Sat"
  | .unsat => "Unsat"
  | .unknown => "Unknown"

/-- The exit codes that solvers agree on. -/
def exitCode : Verdict → Nat
  | .sat => 10
  | .unsat => 20
  | .unknown => 0

end Verdict

/-- Levels of detail, from nothing at all to every step. -/
inductive Detail
  | off
  | error
  | warn
  | info
  | debug
  | trace
deriving DecidableEq, Inhabited

namespace Detail

def rank : Detail → Nat
  | .off => 0
  | .error => 1
  | .warn => 2
  | .info => 3
  | .debug => 4
  | .trace => 5

def name : Detail → String
  | .off => "off"
  | .error => "error"
  | .warn => "warn"
  | .info => "info"
  | .debug => "debug"
  | .trace => "trace"

def all : List Detail := [.off, .error, .warn, .info, .debug, .trace]

/-- The level of a name, in small or capital letters. -/
def ofName? (s : String) : Option Detail := all.find? fun d => d.name == s.map Char.toLower

/-- Whether an event of detail `d` is reported at the level `limit`. -/
def shows (limit d : Detail) : Bool := d.rank ≤ limit.rank

end Detail

/-- What a run reports. -/
inductive Event
  | subsumption (removed strengthened : Nat)
  | elimination (eliminated total : Nat)
  | partialOrders (count size : Nat)
  | solved (verdict : Verdict) (conflicts decisions restarts : Nat)
  | conflictLimitReached
  | garbageCollected (freed total : Nat)
  | localsReduced (deleted kept : Nat)
  | midsReduced (demoted total : Nat)
  | restarted (restarts conflicts : Nat)
  | learned (level : Nat) (clause : List Lit) (backtrackTo : Nat)
deriving DecidableEq

namespace Event

def detail : Event → Detail
  | .subsumption .. | .elimination .. | .partialOrders .. => .info
  | .solved .. | .conflictLimitReached | .garbageCollected .. | .localsReduced .. | .midsReduced .. => .debug
  | .restarted .. | .learned .. => .trace

/-- The part of the program that an event comes from. Its name starts with that of the larger part it belongs to. -/
def source : Event → String
  | .subsumption .. | .elimination .. => "incsat::elim"
  | .partialOrders .. => "incsat::posets"
  | .solved .. => "incsat::solver"
  | .conflictLimitReached | .restarted .. => "incsat::schedule"
  | .garbageCollected .. => "incsat::clause::gc"
  | .localsReduced .. | .midsReduced .. => "incsat::clause::reduce"
  | .learned .. => "incsat::cdcl"

def text : Event → String
  | .subsumption removed strengthened =>
    "subsumption: removed " ++ toString removed ++ " clauses, strengthened " ++ toString strengthened ++ " clauses"
  | .elimination eliminated total =>
    "elimination: eliminated " ++ toString eliminated ++ " variables, " ++ toString total ++ " in total"
  | .partialOrders count size =>
    "found " ++ toString count ++ " partial orders on " ++ toString size ++ " elements"
  | .solved verdict conflicts decisions restarts =>
    "solve: " ++ verdict.name ++ " (" ++ toString conflicts ++ " conflicts, " ++ toString decisions ++
      " decisions, " ++ toString restarts ++ " restarts in total)"
  | .conflictLimitReached => "conflict budget exhausted"
  | .garbageCollected freed total =>
    "garbage collection: " ++ toString freed ++ " of " ++ toString total ++ " words freed"
  | .localsReduced deleted kept =>
    "reduced local clauses: deleted " ++ toString deleted ++ ", kept " ++ toString kept
  | .midsReduced demoted total =>
    "reduced mid clauses: demoted " ++ toString demoted ++ " of " ++ toString total
  | .restarted restarts conflicts =>
    "restart " ++ toString restarts ++ " after " ++ toString conflicts ++ " conflicts"
  | .learned level clause backtrackTo =>
    "conflict on level " ++ toString level ++ ": learned " ++ Lit.renderList clause ++ ", backtracking to " ++
      toString backtrackTo

end Event

end ClauseLearning
