import ClauseLearning.Formula
import ClauseLearning.Random.Sample

/-!
# Uniform random k-SAT

`Formula.randomKSat seed vars clauses width` : every clause takes `width` different variables, drawn together, and
then a polarity for each of them in turn. There have to be so many variables.
-/

namespace ClauseLearning.Formula

variable [Build]

/-- A clause on `width` different variables of index below `vars`. -/
def randomClause (vars width : Nat) (k : KeyStream) : Fallible (List Lit × KeyStream) := do
  let (indices, k) := k.sample vars width
  let (polarities, k) := KeyStream.coins indices.length k
  let clause ← (indices.zip polarities).mapM fun (i, p) => Lit.ofIndex i p
  return (clause, k)

/-- `count` random clauses, appended to `f`. -/
def addRandomClauses (vars width : Nat) : Nat → Formula → KeyStream → Fallible Formula
  | 0, f, _ => return f
  | count + 1, f, k => do
    let (clause, k) ← randomClause vars width k
    addRandomClauses vars width count (f.add clause) k

/-- Random clauses of `width` literals over `vars` variables. -/
def randomKSat (seed : UInt64) (vars clauses width : Nat) : Fallible Formula := do
  require (width ≤ vars) .assertion
  addRandomClauses vars width clauses (raiseVarCount {} vars) (KeyStream.ofSeed seed)

end ClauseLearning.Formula
