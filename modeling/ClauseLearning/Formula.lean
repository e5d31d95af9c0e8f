import ClauseLearning.Literal

/-!
# Formulas in conjunctive normal form

A `Formula` is a sequence of clauses and a number of variables that covers them (`Formula.add` raises it as needed,
`Formula.raiseVarCount` and `Formula.newVar` add variables that no clause uses).
-/

namespace ClauseLearning

/-- Clauses in the order they were added, over variables of index below `varCount`. -/
structure Formula where
  varCount : Nat := 0
  clauses : Array (List Lit) := #[]
deriving DecidableEq, Inhabited

namespace Formula

/-- Raises the number of variables to `count`. A smaller count changes nothing. -/
def raiseVarCount (f : Formula) (count : Nat) : Formula := { f with varCount := max f.varCount count }

/-- A variable that no clause uses so far. -/
def newVar (f : Formula) : Var × Formula := (⟨f.varCount⟩, { f with varCount := f.varCount + 1 })

/-- The least number of variables that covers a clause. -/
def span (lits : List Lit) : Nat := lits.foldl (fun n l => max n (l.var.index + 1)) 0

/-- Appends a clause. -/
def add (f : Formula) (lits : List Lit) : Formula :=
  { varCount := max f.varCount (span lits), clauses := f.clauses.push lits }

/-- The formula of a list of clauses. -/
def ofClauses (clauses : List (List Lit)) : Formula := clauses.foldl add {}

/-- The number of clauses. -/
def size (f : Formula) : Nat := f.clauses.size

/-- Whether every clause has a literal that `holds`. -/
def satisfiedBy (f : Formula) (holds : Lit → Bool) : Bool := f.clauses.all fun c => c.any holds

/-- A formula is written as its number of variables and the list of its clauses. -/
def render (f : Formula) : String :=
  toString f.varCount ++ " vars [" ++ ", ".intercalate (f.clauses.toList.map Lit.renderList) ++ "]"

end Formula

end ClauseLearning
