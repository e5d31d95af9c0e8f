import ClauseLearning.Engine

/-!
# Enumerating models

The models of a formula are found one after the other, each being excluded by a clause before the next one is searched
for (`Enumeration.blockingClause`). Models that agree on the chosen literals count as one.

* `Enumeration.models` : the values of the literals in each model, up to a number of models;
* `Enumeration.count` : the number of models.
-/

namespace ClauseLearning.Enumeration

variable {σ : Type} [Engine σ]

/-- The values of some literals in the last model, next to the literals. -/
def valuesOf (s : σ) : List Int32 → Except SolverError (List (Int32 × Int))
  | [] => .ok []
  | l :: ls =>
    match Engine.modelValue s l with
    | .error e => .error e
    | .ok value =>
      match valuesOf s ls with
      | .error e => .error e
      | .ok values => .ok ((l, value) :: values)

/-- The values of some literals in the last model. -/
def values (ls : List Int32) : EngineM σ (List (Int32 × Int)) := .ofFunction fun s => (valuesOf s ls, s)

/-- The clause that excludes the model in which some literals have the given values: one of them has to be different.
A literal without a value counts as false. -/
def blockingClause (values : List (Int32 × Int)) : List Int32 :=
  values.map fun (l, value) => if 0 < value then -l else l

/-- The values of some literals in up to `limit` models that differ on them. -/
def models (ls : List Int32) : Nat → EngineM σ (List (List Int))
  | 0 => pure []
  | limit + 1 => do
    if (← Engine.solve) = .sat then
      let values ← values ls
      let model := values.map Prod.snd
      if ← Engine.addClause (blockingClause values) then return model :: (← models ls limit)
      else return [model]
    else return []

/-- Counts up to `fuel` models that differ on some literals, after `found` others. -/
def countFuel (ls : List Int32) : Nat → Nat → EngineM σ Nat
  | 0, found => pure found
  | fuel + 1, found => do
    if (← Engine.solve) = .sat then
      let clause := blockingClause (← values ls)
      if clause.isEmpty then pure (found + 1)
      else
        let _ ← Engine.addClause clause
        countFuel ls fuel (found + 1)
    else pure found

/-- The number of models that differ on some literals. It is at most the number of assignments to these. -/
def count (ls : List Int32) : EngineM σ Nat := countFuel ls (Nat.pow 2 ls.length + 1) 0

end ClauseLearning.Enumeration
