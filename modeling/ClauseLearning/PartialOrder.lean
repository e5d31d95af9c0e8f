import ClauseLearning.Enumeration

/-!
# Counting partial orders

The partial orders on `size` labelled elements are the models of a formula with a variable for each ordered pair
(`PartialOrder.clauses`). `PartialOrder.count` has an engine enumerate them.
-/

namespace ClauseLearning.PartialOrder

variable {σ : Type} [Engine σ]

/-- The variables of the ordered pairs, row by row. -/
structure Table where
  size : Nat
  numbers : Array Int32

/-- The literal that is true when `i` is at most `j`. -/
def Table.related (t : Table) (i j : Nat) : Int32 := t.numbers.getD (i * t.size + j) 0

/-- Each element is at most itself. -/
def reflexivity (t : Table) : List (List Int32) := (List.range t.size).map fun i => [t.related i i]

/-- Of two different elements, not each is at most the other. -/
def antisymmetry (t : Table) : List (List Int32) :=
  (List.range t.size).flatMap fun i => (List.range i).map fun j => [-t.related i j, -t.related j i]

/-- What is at most an element is at most everything that this is at most. -/
def transitivity (t : Table) : List (List Int32) :=
  (List.range t.size).flatMap fun i => (List.range t.size).flatMap fun j => (List.range t.size).map fun k =>
    [-t.related i j, -t.related j k, t.related i k]

/-- The clauses whose models are the partial orders. -/
def clauses (t : Table) : List (List Int32) := reflexivity t ++ antisymmetry t ++ transitivity t

/-- The number of partial orders on `size` labelled elements, found by an engine without variables. -/
def count (size : Nat) : EngineM σ Nat := do
  let numbers ← Engine.newVariables {} (size * size)
  Engine.addClauses (clauses { size := size, numbers := numbers.toArray })
  let n ← Enumeration.count numbers
  modify (Engine.report (.partialOrders n size))
  return n

end ClauseLearning.PartialOrder
