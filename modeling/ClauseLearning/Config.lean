import ClauseLearning.Error

/-!
# Configuration

* `Config` : the parameters of search and simplification, with their defaults;
* `ConfigUpdate` : new values for some of them. `ConfigUpdate.merge` lets a later update win, `ConfigUpdate.apply`
  checks an update and changes a configuration as a whole or not at all;
* `Setting` : a value as it is written in a configuration text, and `ConfigUpdate.set?` to put it into an update by
  its name;
* `Config.help` : the names and meanings of all parameters.
-/

namespace ClauseLearning

/-- The parameters of search and simplification. -/
structure Config where
  /-- The factor by which variable activities decay. -/
  vsidsDecay : Float32 := 0.95
  /-- The factor by which clause activities decay. -/
  clauseActivityDecay : Float32 := 0.999
  /-- The number of conflicts between reductions of the local clauses. -/
  reduceLocalsInterval : UInt64 := 15000
  /-- The number of conflicts between reductions of the mid tier clauses. -/
  reduceMidsInterval : UInt64 := 10000
  /-- The number of conflicts that a term 1 of the restart sequence stands for. -/
  lubyRestartIntervalScale : UInt64 := 128
  /-- How many clauses more than it removes the elimination of a variable may add. -/
  elimGrowLimit : UInt64 := 0
  /-- The greatest length of a resolvent for an elimination. -/
  elimResolventLimit : UInt64 := 20
  /-- The greatest number of occurrences of a variable to eliminate. -/
  elimOccurrenceLimit : UInt64 := 64
  /-- The greatest length of a clause that subsumes others. -/
  subsumptionLimit : UInt64 := 100
deriving Inhabited

/-- New values for some of the parameters. -/
structure ConfigUpdate where
  vsidsDecay : Option Float32 := none
  clauseActivityDecay : Option Float32 := none
  reduceLocalsInterval : Option UInt64 := none
  reduceMidsInterval : Option UInt64 := none
  lubyRestartIntervalScale : Option UInt64 := none
  elimGrowLimit : Option UInt64 := none
  elimResolventLimit : Option UInt64 := none
  elimOccurrenceLimit : Option UInt64 := none
  subsumptionLimit : Option UInt64 := none
deriving Inhabited

namespace ConfigUpdate

/-- The values of `later` where it has one, those of `u` elsewhere. -/
def merge (u later : ConfigUpdate) : ConfigUpdate where
  vsidsDecay := later.vsidsDecay <|> u.vsidsDecay
  clauseActivityDecay := later.clauseActivityDecay <|> u.clauseActivityDecay
  reduceLocalsInterval := later.reduceLocalsInterval <|> u.reduceLocalsInterval
  reduceMidsInterval := later.reduceMidsInterval <|> u.reduceMidsInterval
  lubyRestartIntervalScale := later.lubyRestartIntervalScale <|> u.lubyRestartIntervalScale
  elimGrowLimit := later.elimGrowLimit <|> u.elimGrowLimit
  elimResolventLimit := later.elimResolventLimit <|> u.elimResolventLimit
  elimOccurrenceLimit := later.elimOccurrenceLimit <|> u.elimOccurrenceLimit
  subsumptionLimit := later.subsumptionLimit <|> u.subsumptionLimit

/-- A decay factor lies strictly between 1/16 and 1. -/
def decayInRange (decay : Float32) : Bool := decide ((0.0625 : Float32) < decay) && decide (decay < (1 : Float32))

/-- The problem with a new decay factor, if there is one. -/
def decayProblem? (setting : String) (decay : Option Float32) : Option ConfigProblem :=
  decay.bind fun d => if decayInRange d then none else some (.decayOutOfRange setting d)

/-- The problem with a new interval, if there is one. -/
def intervalProblem? (setting : String) (interval : Option UInt64) : Option ConfigProblem :=
  interval.bind fun n => if n = 0 then some (.notPositive setting) else none

/-- The first problem with an update, in the order of the parameters. -/
def problem? (u : ConfigUpdate) : Option ConfigProblem :=
  decayProblem? "vsids_decay" u.vsidsDecay <|>
  decayProblem? "clause_activity_decay" u.clauseActivityDecay <|>
  intervalProblem? "reduce_locals_interval" u.reduceLocalsInterval <|>
  intervalProblem? "reduce_mids_interval" u.reduceMidsInterval <|>
  intervalProblem? "luby_restart_interval_scale" u.lubyRestartIntervalScale

/-- The configuration with the values of an update in place of its own. -/
def overwrite (u : ConfigUpdate) (c : Config) : Config where
  vsidsDecay := u.vsidsDecay.getD c.vsidsDecay
  clauseActivityDecay := u.clauseActivityDecay.getD c.clauseActivityDecay
  reduceLocalsInterval := u.reduceLocalsInterval.getD c.reduceLocalsInterval
  reduceMidsInterval := u.reduceMidsInterval.getD c.reduceMidsInterval
  lubyRestartIntervalScale := u.lubyRestartIntervalScale.getD c.lubyRestartIntervalScale
  elimGrowLimit := u.elimGrowLimit.getD c.elimGrowLimit
  elimResolventLimit := u.elimResolventLimit.getD c.elimResolventLimit
  elimOccurrenceLimit := u.elimOccurrenceLimit.getD c.elimOccurrenceLimit
  subsumptionLimit := u.subsumptionLimit.getD c.subsumptionLimit

/-- Applies an update, unless one of its values is out of range. -/
def apply (u : ConfigUpdate) (c : Config) : Except SolverError Config :=
  match u.problem? with
  | some problem => .error (.invalidConfig problem)
  | none => .ok (u.overwrite c)

end ConfigUpdate

/-! ## Settings by name -/

/-- A number in a configuration text: an integer of 64 bits, any other finite number, or a special value. -/
inductive Setting
  | integer (value : Int)
  | decimal (value : Decimal)
  | special (value : Float32)

namespace Setting

/-- A setting as a decay factor. An integer is rounded once, any other number first to double precision. -/
def decay : Setting → Float32
  | .integer value => (Decimal.ofInt value).toSingle
  | .decimal value => value.toSingleByDouble
  | .special value => value

/-- A setting as a count: an integer that is not negative. -/
def count? : Setting → Option UInt64
  | .integer value => if 0 ≤ value then some (UInt64.ofNat value.toNat) else none
  | _ => none

end Setting

/-- Puts a setting into an update. There is none for an unknown name, or for a number of the wrong kind. -/
def ConfigUpdate.set? (u : ConfigUpdate) (name : String) (value : Setting) : Option ConfigUpdate :=
  match name with
  | "vsids_decay" => some { u with vsidsDecay := some value.decay }
  | "clause_activity_decay" => some { u with clauseActivityDecay := some value.decay }
  | "reduce_locals_interval" => value.count?.map fun n => { u with reduceLocalsInterval := some n }
  | "reduce_mids_interval" => value.count?.map fun n => { u with reduceMidsInterval := some n }
  | "luby_restart_interval_scale" => value.count?.map fun n => { u with lubyRestartIntervalScale := some n }
  | "elim_grow_limit" => value.count?.map fun n => { u with elimGrowLimit := some n }
  | "elim_resolvent_limit" => value.count?.map fun n => { u with elimResolventLimit := some n }
  | "elim_occurrence_limit" => value.count?.map fun n => { u with elimOccurrenceLimit := some n }
  | "subsumption_limit" => value.count?.map fun n => { u with subsumptionLimit := some n }
  | _ => none

/-! ## Help -/

/-- The name of each parameter and the lines that explain it. -/
def Config.parameters : List (String × List String) :=
  [("vsids_decay", ["Multiplicative decay for the VSIDS decision heuristic. (Default: 0.95)"]),
    ("clause_activity_decay", ["Multiplicative decay for clause activities. (Default: 0.999)"]),
    ("reduce_locals_interval", ["Number of conflicts between local clause reductions. (Default: 15000)"]),
    ("reduce_mids_interval", ["Number of conflicts between mid clause reductions. (Default: 10000)"]),
    ("luby_restart_interval_scale",
      ["Scaling factor for luby sequence based restarts (number of conflicts). (Default: 128)"]),
    ("elim_grow_limit",
      ["Number of clauses variable elimination may add on top of the clauses it removes.", "(Default: 0)"]),
    ("elim_resolvent_limit", ["Variables producing a resolvent longer than this are not eliminated. (Default: 20)"]),
    ("elim_occurrence_limit", ["Variables occurring in more clauses than this are not eliminated. (Default: 64)"]),
    ("subsumption_limit", ["Clauses longer than this are not used to subsume other clauses. (Default: 100)"])]

/-- The lines of the help text: each name with a colon, then its explanation, indented. -/
def Config.helpLines : List String :=
  Config.parameters.flatMap fun (name, lines) => (name ++ ":") :: lines.map ("    " ++ ·)

/-- The help text. -/
def Config.help : String := String.join (Config.helpLines.map (· ++ "\n"))

end ClauseLearning
