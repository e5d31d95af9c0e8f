import ClauseLearning.Engine

/-!
# At most k literals

`Encoding.atMostK ls k` adds clauses that forbid more than `k` of `ls` to be true, by a sequential counter: variable
`j` of row `i` is implied when at least `j + 1` of the first `i + 1` literals are true. Every literal but the last one
has a row.

* `Encoding.firstRow` : the clauses of the first row;
* `Encoding.nextRow` : those of a row after another, with the clause that forbids the counter to exceed `k`;
* `Encoding.counterClauses` : all clauses.
-/

namespace ClauseLearning.Encoding

variable {σ : Type} [Engine σ]

/-- The first literal is counted, and nothing more. -/
def firstRow (l : Int32) : List Int32 → List (List Int32)
  | [] => []
  | c :: cs => [-l, c] :: cs.map fun c => [-c]

/-- What a literal adds to the counter, from the second variable of a row on: the count goes up if the literal is true,
and stays at least what it was. -/
def carryClauses (l : Int32) : List Int32 → List Int32 → List (List Int32)
  | p :: q :: previous, c :: current => [-l, -p, c] :: [-q, c] :: carryClauses l (q :: previous) current
  | _, _ => []

/-- The clauses of a row after another. -/
def nextRow (l : Int32) (previous current : List Int32) : List (List Int32) :=
  match previous, current with
  | p :: ps, c :: cs =>
    [-l, c] :: [-p, c] :: carryClauses l (p :: ps) cs ++ [[-l, -((p :: ps).getLast?.getD p)]]
  | _, _ => []

/-- The clauses of the literals after the first: each has a row after the previous one, the last one only must not
exceed the counter. -/
def laterClauses (previous : List Int32) : List Int32 → List (List Int32) → List (List Int32)
  | [l], _ => (previous.getLast?.map fun p => [-l, -p]).toList
  | l :: ls, row :: rows => nextRow l previous row ++ laterClauses row ls rows
  | _, _ => []

/-- All clauses of a counter for literals and rows of variables. -/
def counterClauses : List Int32 → List (List Int32) → List (List Int32)
  | l :: ls, row :: rows => firstRow l row ++ laterClauses row ls rows
  | _, _ => []

/-- Allocates rows of `width` variables each. -/
def newRows (width : Nat) : Nat → EngineM σ (List (List Int32))
  | 0 => pure []
  | count + 1 => do
    let row ← Engine.newVariables { eliminate := true } width
    let rows ← newRows width count
    return row :: rows

/-- At most `k` of the literals are true. The answer is false if the formula is known to be unsatisfiable
afterwards. -/
def atMostK (ls : List Int32) (k : Nat) : EngineM σ Bool := do
  if k = 0 then Engine.addClauses (ls.map fun l => [-l])
  else if k < ls.length then
    let rows ← newRows k (ls.length - 1)
    Engine.addClauses (counterClauses ls rows)
  Engine.stillOkay

end ClauseLearning.Encoding
