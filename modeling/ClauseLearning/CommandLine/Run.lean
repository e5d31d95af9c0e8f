import ClauseLearning.CommandLine.Arguments
import ClauseLearning.Config.Text
import ClauseLearning.Engine.Created
import ClauseLearning.Event.Filter
import ClauseLearning.Formula.PigeonHole
import ClauseLearning.Formula.RandomKSat
import ClauseLearning.PartialOrder
import ClauseLearning.Version

/-!
# Runs of the program

`Request.run` answers the exit code and the output of a run as an `Outcome`. The output consists of log messages, which
a filter lets through or not, and of lines that are always printed.

* `RunM` : a run that may fail with a message, or stop with a fault;
* `solveFormula`, `countPosets` : what the commands do with an engine;
* `outcome` : the run for given arguments, `Outcome.lines` what it prints.
-/

namespace ClauseLearning.CommandLine

/-- A line of output. A log message comes from a part of the program. -/
inductive OutputLine
  | log (source : String) (detail : Detail) (text : String)
  | print (text : String)
deriving DecidableEq

namespace OutputLine

/-- Whether a filter lets a line through. -/
def passes (filter : MessageFilter) : OutputLine → Bool
  | log source detail text => filter.shows source detail text
  | print _ => true

/-- Log messages are written as comments. All but informative ones name their level. -/
def render : OutputLine → String
  | log _ .info text => "c " ++ text
  | log _ detail text => "c " ++ detail.name ++ ": " ++ text
  | print text => text

end OutputLine

/-- The end of a run. -/
structure Outcome where
  exitCode : Nat
  output : List OutputLine := []

/-- The lines that a filter lets through, as they are printed. -/
def Outcome.lines (o : Outcome) (filter : MessageFilter) : List String :=
  (o.output.filter (OutputLine.passes filter)).map OutputLine.render

/-- The part of the program that reports on the run as a whole. -/
def programName : String := "incsat"

/-- Why a run ends early. -/
inductive Failure
  /-- It fails with a message. -/
  | message (text : String)
  /-- The program stops with a fault. -/
  | fault
deriving DecidableEq

/-- A run that writes output and may end early. -/
abbrev RunM := ExceptT Failure (StateM (Array OutputLine))

/-- The program is built with all checks. -/
abbrev build : Build := .checked

namespace RunM

def write (line : OutputLine) : RunM Unit := modify fun lines => lines.push line

def info (text : String) : RunM Unit := write (.log programName .info text)

def print (text : String) : RunM Unit := write (.print text)

def fail {α : Type} (text : String) : RunM α := throw (.message text)

/-- The value of an option, or a failure with a message. -/
def orFail {α : Type} (message : String) : Option α → RunM α
  | some a => pure a
  | none => fail message

/-- The answer of a program that may stop. -/
def ofFallible {α : Type} : Fallible α → RunM α
  | .ok a => pure a
  | .error _ => throw .fault

/-- Runs a computation on an engine, and logs the events it reported. The program stops where a sum overflows. -/
def onEngine {α : Type} (e : CreatedEngine) (m : EngineM CreatedEngine α) : RunM (α × CreatedEngine) := do
  let (result, e) := m.exec e
  let (events, solver) := e.solver.readJournal
  events.forM fun event => write (.log event.source event.detail event.text)
  if solver.overflowed then throw .fault
  match result with
  | .ok a => return (a, e.withSolver solver)
  | .error err => fail err.message

/-- The exit code after a fault. -/
def faultCode : Nat := 101

/-- The outcome of a run that answers an exit code. A failure is logged, unless the program stops. -/
def outcome (m : RunM Nat) : Outcome :=
  match StateT.run (ExceptT.run m) (#[] : Array OutputLine) with
  | (.ok code, lines) => ⟨code, lines.toList⟩
  | (.error (.message text), lines) => ⟨1, (lines.push (.log programName .error text)).toList⟩
  | (.error .fault, lines) => ⟨faultCode, lines.toList⟩

end RunM

/-! ## Numbers -/

/-- The number that a text of decimal digits stands for, with a plus sign in front or without. Numbers have 64
bits. -/
def count? (text : String) : Option Nat :=
  let digits :=
    match text.toList with
    | '+' :: ds => ds
    | ds => ds
  if digits.isEmpty || !digits.all Char.isDigit then none
  else
    let n := digits.foldl (fun n d => n * 10 + (d.toNat - '0'.toNat)) 0
    if n < UInt64.size then some n else none

/-- A number, or a failure. -/
def readCount (text : String) : RunM Nat := RunM.orFail "error" (count? text)

/-! ## Commands -/

/-- The values of variables in a model, as signed numbers. Variables without a value are left out. -/
def assigned : List (Int × Int) → List Int
  | [] => []
  | (v, value) :: rest => if value = 0 then assigned rest else v * value :: assigned rest

/-- Adds the clauses of a formula to an engine without variables and solves it. -/
def solveByEngine (f : Formula) : EngineM CreatedEngine Verdict := do
  let _ ← Engine.newVariables { eliminate := true } f.varCount
  Engine.addClauses (f.clauses.toList.map fun c => c.map Lit.signed)
  Engine.solve

/-- The values of the first `count` variables. -/
def modelOf (e : CreatedEngine) (count : Nat) : Except SolverError (List (Int × Int)) :=
  (List.range count).mapM fun i =>
    (Engine.modelValue e (Int32.ofNat (i + 1))).map fun value => ((i + 1 : Int), value)

/-- Solves a formula and prints the result: its verdict, and its model if it has one. -/
def solveFormula (e : CreatedEngine) (f : Formula) : RunM Nat := do
  RunM.info ("Formula with " ++ toString f.varCount ++ " variables and " ++ toString f.size ++ " clauses")
  let (verdict, e) ← RunM.onEngine e (solveByEngine f)
  match verdict with
  | .sat =>
    RunM.print "s SATISFIABLE"
    match modelOf e f.varCount with
    | .error err => RunM.fail err.message
    | .ok model =>
      RunM.print (" ".intercalate ("v" :: (assigned model).map toString ++ ["0"]))
  | .unsat => RunM.print "s UNSATISFIABLE"
  | .unknown => RunM.print "s UNKNOWN"
  return verdict.exitCode

/-- Counts partial orders and prints their number. -/
def countPosets (e : CreatedEngine) (size : Nat) : RunM Nat := do
  let (count, _) ← RunM.onEngine e (PartialOrder.count size)
  RunM.print ("Number of posets of size " ++ toString size ++ " is: " ++ toString count)
  return 0

/-- How the program is called. -/
def usageLines : List String := ["USAGE:", "    incsat [OPTIONS] [SUBCOMMAND]"]

def printUsage : RunM Unit := usageLines.forM RunM.print

/-- Runs a command. Without a command, the usage is printed. -/
def Command.run (e : CreatedEngine) : Option Command → RunM Nat
  | some (.posets size) => do countPosets e (← readCount size)
  | some (.pigeonhole holes) => do
    let holes ← readCount holes
    RunM.info ("Pigeonhole formula with " ++ toString holes ++ " holes")
    solveFormula e (← RunM.ofFallible (@Formula.pigeonHole build holes))
  | some (.random vars clauses width seed) => do
    let vars ← readCount vars
    let clauses ← readCount clauses
    let width ← readCount width
    let seed ← readCount seed
    if vars < width then
      RunM.fail ("clause width " ++ toString width ++ " exceeds variable count " ++ toString vars)
    RunM.info ("Random " ++ toString width ++ "-SAT formula with seed " ++ toString seed)
    solveFormula e (← RunM.ofFallible (@Formula.randomKSat build (UInt64.ofNat seed) vars clauses width))
  | none => do
    printUsage
    return 1

/-! ## Requests -/

/-- The name and the version of the program. -/
def programVersion : String := programName ++ " " ++ version

/-- The update of the configuration file of a run. -/
def fileUpdate (files : String → Option String) : Option String → RunM ConfigUpdate
  | none => return {}
  | some path => do
    let text ← RunM.orFail ("reading config file '" ++ path ++ "'") (files path)
    RunM.orFail ("parsing config file '" ++ path ++ "'") (ConfigUpdate.ofText? text)

/-- Merges the updates of configuration options, later ones over earlier ones. -/
def mergeOptions (u : ConfigUpdate) : List String → RunM ConfigUpdate
  | [] => return u
  | option :: rest => do
    let later ← RunM.orFail ("parsing config option '" ++ option ++ "'") (ConfigUpdate.ofText? option)
    mergeOptions (u.merge later) rest

/-- The engine of a run. -/
def createEngine (kind : EngineKind) (u : ConfigUpdate) (limit : Option Nat) : RunM CreatedEngine :=
  match CreatedEngine.create kind u with
  | .ok e => return Engine.setDecisionLimit limit e
  | .error err => RunM.fail err.message

/-- Configures an engine and runs the command. -/
def Request.work (r : Request) (files : String → Option String) : RunM Nat := do
  RunM.info ("This is " ++ programVersion)
  let update ← mergeOptions (← fileUpdate files r.configFile) r.configOptions
  let limit ← r.decisionLimit.mapM readCount
  let e ← createEngine r.engine update limit
  RunM.info ("Using the " ++ r.engine.name ++ " engine")
  Command.run e r.command

/-- The outcome of a request, where `files` holds the contents of the files that can be read. The configuration option
`help` asks for the names and meanings of all options instead. -/
def Request.run (r : Request) (files : String → Option String) : Outcome :=
  if r.configOptions.contains "help" then ⟨0, Config.helpLines.map .print⟩
  else (r.work files).outcome

/-- The outcome of a run with the given arguments. -/
def outcome (files : String → Option String) (arguments : List String) : Outcome :=
  match Invocation.ofArguments? arguments with
  | none => ⟨1, []⟩
  | some .version => ⟨0, [.print programVersion]⟩
  | some .usage => ⟨0, usageLines.map .print⟩
  | some (.request r) => r.run files

/-- The filter that a text asks for, by default that of information. -/
def filterOf (text : Option String) : MessageFilter := (text.map MessageFilter.ofText).getD {}

end ClauseLearning.CommandLine
