import ClauseLearning.Simplification.Elimination
import ClauseLearning.Simplification.Subsumption

/-!
# Simplification of the formula

`Solver.simplifyFormula` runs subsumption and, if asked to and not switched off, variable elimination. Facts are
propagated and applied before, between and after.
-/

namespace ClauseLearning.Solver

/-- Subsumption, strengthening and, if `eliminate` holds, variable elimination. To be used on level 0. -/
def simplifyFormula (s : Solver) (eliminate : Bool) : Solver :=
  match s.settleFacts with
  | (false, s) => s
  | (true, s) =>
    match s.subsume.settleFacts with
    | (false, s) => s
    | (true, s) => if eliminate && !s.eliminationOff then s.eliminateVars.settleFacts.2 else s

end ClauseLearning.Solver
