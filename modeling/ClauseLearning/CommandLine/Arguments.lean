import ClauseLearning.Engine

/-!
# Arguments

* `Shape`, `Switch` : the options, operands and commands that arguments may use;
* `scan` : one pass over the arguments of a shape, from left to right;
* `Given.values?` : the values of an option, its default if it has none;
* `Request` : what a run is asked to do, `Invocation.ofArguments?` the reading of all arguments.

An argument that starts with a dash is an option, except for a single dash. The value of an option is the next
argument, unless that is an option, or stands in the same argument: after an equals sign, or right after a letter.
After a double dash there are only operands.
-/

namespace ClauseLearning.CommandLine

/-- An option that takes a value. -/
structure Switch where
  name : String
  letter : Option Char := none
  repeatable : Bool := false
  default : Option String := none

/-- What the arguments of a program or of one of its commands may be. -/
structure Shape where
  switches : List Switch
  operands : Nat := 0
  commands : List String := []
  /-- Whether there is an option that asks for the version. -/
  versioned : Bool := false

/-- The arguments seen so far: options with their values, in order, and operands. -/
structure Given where
  switches : List (String × Option String) := []
  operands : List String := []

/-- Where a pass over arguments ends: after the last one or in front of a command, or at a request for information. -/
inductive Scan
  | ended (given : Given)
  | command (given : Given) (name : String) (rest : List String)
  | version
  | usage

/-- What a single option asks for. -/
inductive Reading
  | switch (name : String) (value : Option String)
  | version
  | usage
  | operandsOnly

namespace Shape

/-- Whether an argument is an option, and not an operand or a value. -/
def isOption (argument : String) : Bool :=
  match argument.toList with
  | '-' :: _ :: _ => true
  | _ => false

/-- The text of a value after the equals signs in front of it. -/
def attached (value : List Char) : String := String.ofList (value.dropWhile (· == '='))

/-- An option with a long name, which ends at an equals sign. -/
def readLong (shape : Shape) (text : List Char) : Option Reading :=
  let (name, value) := text.span (· != '=')
  let name := String.ofList name
  if shape.switches.any fun w => w.name == name then
    some (.switch name (if value.isEmpty then none else some (attached value)))
  else if name == "help" then some .usage
  else if name == "version" && shape.versioned then some .version
  else none

/-- An option with a single letter. -/
def readShort (shape : Shape) (letter : Char) (value : List Char) : Option Reading :=
  match shape.switches.find? fun w => w.letter == some letter with
  | some w => some (.switch w.name (if value.isEmpty then none else some (attached value)))
  | none =>
    if letter = 'h' then some .usage
    else if letter = 'V' ∧ shape.versioned then some .version
    else none

/-- The reading of an option, none if there is no such option. -/
def read? (shape : Shape) (argument : String) : Option Reading :=
  match argument.toList with
  | ['-', '-'] => some .operandsOnly
  | '-' :: '-' :: text => shape.readLong (text.dropWhile (· == '-'))
  | '-' :: letter :: value => shape.readShort letter value
  | _ => none

/-- Adds an operand, if the shape has room for one more. -/
def addOperand? (shape : Shape) (given : Given) (argument : String) : Option Given :=
  if given.operands.length < shape.operands then
    some { given with operands := given.operands ++ [argument] }
  else none

/-- Adds operands in turn. -/
def addOperands? (shape : Shape) (given : Given) : List String → Option Given
  | [] => some given
  | argument :: rest => (shape.addOperand? given argument).bind fun given => shape.addOperands? given rest

/-- Reads arguments. `awaiting` is the name of an option whose value may come next. -/
def scan (shape : Shape) : Option String → Given → List String → Option Scan
  | awaiting, given, [] => some (.ended (close awaiting given))
  | awaiting, given, argument :: rest =>
    if isOption argument then
      let given := close awaiting given
      match shape.read? argument with
      | some (.switch name (some value)) => shape.scan none (give given name (some value)) rest
      | some (.switch name none) => shape.scan (some name) given rest
      | some .version => some .version
      | some .usage => some .usage
      | some .operandsOnly => (shape.addOperands? given rest).map .ended
      | none => none
    else
      match awaiting with
      | some name => shape.scan none (give given name (some argument)) rest
      | none =>
        if shape.commands.contains argument then some (.command given argument rest)
        else
          match shape.addOperand? given argument with
          | some given => shape.scan none given rest
          | none => none
where
  /-- Records an option. -/
  give (given : Given) (name : String) (value : Option String) : Given :=
    { given with switches := given.switches ++ [(name, value)] }
  /-- Records an option that got no value. -/
  close (awaiting : Option String) (given : Given) : Given :=
    match awaiting with
    | some name => give given name none
    | none => given

end Shape

/-- The values of an option. There is no result if the option was repeated without being repeatable, or if it was
given without a value and has no default. -/
def Given.values? (given : Given) (w : Switch) : Option (List String) :=
  let uses := given.switches.filter fun (name, _) => name == w.name
  let values := uses.filterMap Prod.snd
  if 1 < uses.length ∧ !w.repeatable then none
  else if values.isEmpty then
    match w.default with
    | some value => some [value]
    | none => if uses.isEmpty then some [] else none
  else some values

/-! ## Requests -/

/-- The commands of the program, with their operands as they were written. -/
inductive Command
  | posets (size : String)
  | pigeonhole (holes : String)
  | random (vars clauses width seed : String)

/-- What a run is asked to do. -/
structure Request where
  engine : EngineKind
  configFile : Option String
  configOptions : List String
  decisionLimit : Option String
  command : Option Command

/-- What the arguments ask for. -/
inductive Invocation
  | version
  | usage
  | request (r : Request)

def engineSwitch : Switch := { name := "engine", default := some "simp" }

def configSwitch : Switch := { name := "config" }

def configOptionSwitch : Switch := { name := "config-option", letter := some 'C', repeatable := true }

def decisionLimitSwitch : Switch := { name := "decision-limit" }

def widthSwitch : Switch := { name := "width", default := some "3" }

def seedSwitch : Switch := { name := "seed", default := some "0" }

/-- The arguments of the program. -/
def programShape : Shape where
  switches := [engineSwitch, configSwitch, configOptionSwitch, decisionLimitSwitch]
  commands := ["posets", "pigeonhole", "random"]
  versioned := true

/-- The arguments of a command. -/
def commandShape (command : String) : Shape :=
  match command with
  | "random" => { switches := [widthSwitch, seedSwitch], operands := 2 }
  | _ => { switches := [], operands := 1 }

/-- The command of a name with its arguments. -/
def command? (name : String) (given : Given) : Option Command := do
  match name, given.operands with
  | "posets", [size] => return .posets size
  | "pigeonhole", [holes] => return .pigeonhole holes
  | "random", [vars, clauses] =>
    let width ← (← given.values? widthSwitch).head?
    let seed ← (← given.values? seedSwitch).head?
    return .random vars clauses width seed
  | _, _ => none

/-- The request of the arguments of the program and of a command. -/
def request? (given : Given) (command : Option Command) : Option Request := do
  let engine ← (← given.values? engineSwitch).head?
  return {
    engine := ← (EngineKind.ofName engine).toOption
    configFile := (← given.values? configSwitch).head?
    configOptions := ← given.values? configOptionSwitch
    decisionLimit := (← given.values? decisionLimitSwitch).head?
    command }

/-- What the arguments ask for, none if they are not acceptable. -/
def Invocation.ofArguments? (arguments : List String) : Option Invocation := do
  match ← programShape.scan none {} arguments with
  | .version => return .version
  | .usage => return .usage
  | .ended given => return .request (← request? given none)
  | .command given name rest =>
    match ← (commandShape name).scan none {} rest with
    | .version => return .version
    | .usage => return .usage
    | .command .. => none
    | .ended commandGiven => return .request (← request? given (some (← command? name commandGiven)))

end ClauseLearning.CommandLine
