import ClauseLearning.Literal
import ClauseLearning.Decimal.Shortest
import ClauseLearning.Text.Quoted

/-!
# What can go wrong

`SolverError` lists the ways in which a call can be refused, `SolverError.message` words them. Unsatisfiability and
an exhausted limit are answers, not errors.
-/

namespace ClauseLearning

/-- A value that a configuration does not accept, with the name of its setting. -/
inductive ConfigProblem
  | decayOutOfRange (setting : String) (value : Float32)
  | notPositive (setting : String)

def ConfigProblem.message : ConfigProblem → String
  | .decayOutOfRange setting value =>
    setting ++ " must be between 0.0625 and 1.0 (exclusive), got " ++ Float32.shortest value
  | .notPositive setting => setting ++ " must be positive"

/-- The reasons for refusing a call. -/
inductive SolverError
  | unknownVariable (v : Var)
  | zeroLiteral
  | literalOutOfRange (number : Int32)
  | eliminatedVariable (v : Var)
  | noModel
  | invalidConfig (problem : ConfigProblem)
  | incompleteClause
  | unknownEngine (name : String)

def SolverError.message : SolverError → String
  | .unknownVariable v => "variable " ++ v.render ++ " was never allocated"
  | .zeroLiteral => "0 is not a literal"
  | .literalOutOfRange number => "literal " ++ toString number.toInt ++ " is out of range"
  | .eliminatedVariable v => "variable " ++ v.render ++ " was eliminated and cannot be used in new clauses"
  | .noModel => "no model available, the last solve call did not return SAT"
  | .invalidConfig problem => "invalid configuration: " ++ problem.message
  | .incompleteClause => "the last clause was not terminated by 0"
  | .unknownEngine name => "unknown engine " ++ quoted name ++ ", expected \"plain\" or \"simp\""

end ClauseLearning
