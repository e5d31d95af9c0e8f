/-!
# Stable sorting by a numeric key

* `mergeBy key xs ys` : two sorted lists merged, with elements of `xs` before those of `ys` of the same key;
* `sortBy key xs` : `xs` in the order of increasing keys, elements of equal keys in their old order;
* `firstMin? key xs` : the first element of least key.
-/

namespace ClauseLearning

variable {α : Type}

/-- Merges two sorted lists of at most `fuel` elements together. -/
def mergeFuel (key : α → Nat) : Nat → List α → List α → List α
  | fuel + 1, x :: xs, y :: ys =>
    if key x ≤ key y then x :: mergeFuel key fuel xs (y :: ys) else y :: mergeFuel key fuel (x :: xs) ys
  | _, xs, ys => xs ++ ys

/-- Merges two sorted lists. Of elements of equal keys, those of `xs` come first. -/
def mergeBy (key : α → Nat) (xs ys : List α) : List α := mergeFuel key (xs.length + ys.length) xs ys

/-- Merges neighbouring lists in pairs. -/
def mergePairs (key : α → Nat) : List (List α) → List (List α)
  | xs :: ys :: runs => mergeBy key xs ys :: mergePairs key runs
  | runs => runs

/-- Merges sorted lists in up to `fuel` rounds until one is left. -/
def mergeRuns (key : α → Nat) : Nat → List (List α) → List α
  | fuel + 1, xs :: ys :: runs => mergeRuns key fuel (mergePairs key (xs :: ys :: runs))
  | _, runs => runs.flatten

/-- Sorts by increasing key, starting from lists of one element. There are fewer rounds than elements. -/
def sortBy (key : α → Nat) (xs : List α) : List α := mergeRuns key xs.length (xs.map fun x => [x])

/-- The first element of least key. -/
def firstMin? (key : α → Nat) : List α → Option α
  | [] => none
  | x :: xs =>
    match firstMin? key xs with
    | none => some x
    | some y => if key x ≤ key y then some x else some y

end ClauseLearning
