import ClauseLearning.Solver

/-!
# Engines

An `Engine` is a solver used through signed numbers: variable `v`, counted from 1, has the literals `v` and `-v`. Calls
that can be refused run in `EngineM`, which keeps the state of the engine also when a call fails.

* `VarFlags` : the properties of a new variable;
* `litOf`, `litsOf` : literals from their numbers, with the errors for those that are none;
* `EngineKind` : the engines that users can name.
-/

namespace ClauseLearning

/-- The properties of a new variable. -/
structure VarFlags where
  /-- Decide on the true value first. -/
  tryTrue : Bool := false
  /-- Decide on the false value first. -/
  tryFalse : Bool := false
  /-- The variable may be eliminated. Without this flag it is frozen. -/
  eliminate : Bool := false
  /-- Never decide on the variable. -/
  noDecision : Bool := false
deriving DecidableEq, Inhabited

namespace VarFlags

/-- The flags of a sum of powers of two, one for each flag. Other powers of two stand for no flag. -/
def ofBits? (bits : Nat) : Option VarFlags :=
  if bits < 16 then
    some
      { tryTrue := bits.testBit 0, tryFalse := bits.testBit 1, eliminate := bits.testBit 2
        noDecision := bits.testBit 3 }
  else none

/-- The flags as a sum of powers of two. -/
def bits (f : VarFlags) : Nat :=
  f.tryTrue.toNat + 2 * f.tryFalse.toNat + 4 * f.eliminate.toNat + 8 * f.noDecision.toNat

/-- The value to try first. True wins if both are asked for. -/
def polarity (f : VarFlags) : Option Bool :=
  if f.tryTrue then some true else if f.tryFalse then some false else none

end VarFlags

/-- A computation on an engine of state `σ` that may fail. -/
abbrev EngineM (σ : Type) := ExceptT SolverError (StateM σ)

/-- Solving by signed numbers. -/
class Engine (σ : Type) where
  /-- Allocates a variable, and answers its positive literal. -/
  newVariable : VarFlags → EngineM σ Int32
  /-- Adds a clause. The answer is false if the formula is known to be unsatisfiable afterwards. -/
  addClause : List Int32 → EngineM σ Bool
  /-- Searches for a model. -/
  solve : EngineM σ Verdict
  /-- The value of a literal in the last model: 1 for true, -1 for false, 0 for none. -/
  modelValue : σ → Int32 → Except SolverError Int
  /-- Whether the formula is not known to be unsatisfiable. -/
  okay : σ → Bool
  /-- The number of allocated variables. -/
  varCount : σ → Nat
  /-- Removes all variables and clauses. -/
  reset : σ → σ
  /-- Limits the decisions of each solve call. -/
  setDecisionLimit : Option Nat → σ → σ
  /-- Adds an event to the journal. -/
  report : Event → σ → σ

namespace EngineM

variable {σ α : Type}

/-- The computation of a function on the state that keeps the state also when it fails. -/
def ofFunction (f : σ → Except SolverError α × σ) : EngineM σ α := ExceptT.mk f

/-- The answer and the state in which a computation ends. -/
def exec (m : EngineM σ α) (s : σ) : Except SolverError α × σ := m.run s

end EngineM

namespace Engine

variable {σ : Type} [Engine σ]

/-- Allocates `count` variables of the same properties. -/
def newVariables (f : VarFlags) : Nat → EngineM σ (List Int32)
  | 0 => pure []
  | count + 1 => do
    let v ← newVariable f
    let vs ← newVariables f count
    return v :: vs

/-- Adds clauses in turn. -/
def addClauses : List (List Int32) → EngineM σ Unit
  | [] => pure ()
  | c :: cs => do
    let _ ← addClause c
    addClauses cs

/-- Whether the formula is not known to be unsatisfiable. -/
def stillOkay : EngineM σ Bool := return okay (← get)

end Engine

/-! ## Literals by number -/

/-- The literal of a signed number. -/
def litOf (number : Int32) : Except SolverError Lit :=
  if number = 0 then .error .zeroLiteral
  else
    match Lit.ofSigned? number with
    | some l => .ok l
    | none => .error (.literalOutOfRange number)

/-- The literals of signed numbers, or the error for the first that is none. -/
def litsOf : List Int32 → Except SolverError (List Lit)
  | [] => .ok []
  | n :: ns =>
    match litOf n with
    | .error e => .error e
    | .ok l =>
      match litsOf ns with
      | .error e => .error e
      | .ok ls => .ok (l :: ls)

/-- The variable of a signed number, whatever its sign. -/
def varOf (number : Int32) : Except SolverError Var := (litOf number).map Lit.var

/-- A value as a number: 1, -1 or 0. -/
def signOf : Option Bool → Int
  | some true => 1
  | some false => -1
  | none => 0

/-- The value of a signed number in the last model of a solver. -/
def Solver.valueOf (s : Solver) (number : Int32) : Except SolverError Int :=
  match litOf number with
  | .error e => .error e
  | .ok l => (s.modelValue l).map signOf

/-! ## Kinds -/

/-- The engines that users can name. -/
inductive EngineKind
  | plain
  | simp
deriving DecidableEq, Inhabited

namespace EngineKind

def name : EngineKind → String
  | .plain => "Plain"
  | .simp => "Simp"

/-- The engine of a name. -/
def ofName (name : String) : Except SolverError EngineKind :=
  match name with
  | "plain" => .ok .plain
  | "simp" => .ok .simp
  | _ => .error (.unknownEngine name)

end EngineKind

end ClauseLearning
