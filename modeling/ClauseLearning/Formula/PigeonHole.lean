import ClauseLearning.Formula

/-!
# The pigeonhole principle

`Formula.pigeonHole holes` puts `holes + 1` pigeons into `holes` holes: every pigeon sits in some hole (`addPigeon`),
and no two pigeons share one (`addPair`). It has no model, and loses that with any one of its clauses.
-/

namespace ClauseLearning.Formula

variable [Build]

/-- The literal that is true when `pigeon` sits in `hole`. -/
def sits (holes pigeon hole : Nat) : Fallible Lit := do
  let row ← word (pigeon * holes)
  Lit.ofIndex (← word (row + hole)) true

/-- A pigeon sits in some hole. -/
def addPigeon (holes : Nat) (f : Formula) (pigeon : Nat) : Fallible Formula := do
  return f.add (← (List.range holes).mapM (sits holes pigeon))

/-- A pigeon and an earlier one do not both sit in a hole. -/
def addPair (holes hole pigeon : Nat) (f : Formula) (earlier : Nat) : Fallible Formula := do
  return f.add [-(← sits holes pigeon hole), -(← sits holes earlier hole)]

/-- No two of the first `pigeons` pigeons sit in `hole`. -/
def addHole (holes pigeons : Nat) (f : Formula) (hole : Nat) : Fallible Formula :=
  (List.range pigeons).foldlM (fun f pigeon => (List.range pigeon).foldlM (addPair holes hole pigeon) f) f

/-- The pigeonhole principle for `holes + 1` pigeons and `holes` holes. -/
def pigeonHole (holes : Nat) : Fallible Formula := do
  let pigeons ← word (holes + 1)
  let f := raiseVarCount {} (← word (pigeons * holes))
  let f ← (List.range pigeons).foldlM (addPigeon holes) f
  (List.range holes).foldlM (addHole holes pigeons) f

end ClauseLearning.Formula
