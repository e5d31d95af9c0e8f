import ClauseLearning.Engine

/-!
# At most one literal

`Encoding.atMostOne groupSize ls` adds clauses that forbid two of `ls` to be true, by the commander encoding: the
literals are split into groups, each with a commander variable that is true if and only if a literal of the group is;
within a group the literals exclude each other in pairs, and the commanders do so by the same encoding.

* `Encoding.pairClauses`, `Encoding.commanderClauses` : the clauses of a group;
* `Encoding.groups` : the groups of a list.
-/

namespace ClauseLearning.Encoding

variable {σ : Type} [Engine σ]

/-- A clause for each pair: not both of them are true. -/
def pairClauses : List Int32 → List (List Int32)
  | [] => []
  | a :: rest => rest.map (fun b => [-a, -b]) ++ pairClauses rest

/-- The commander is true if and only if a literal of its group is. -/
def commanderClauses (commander : Int32) (group : List Int32) : List (List Int32) :=
  group.map (fun l => [commander, -l]) ++ [-commander :: group]

/-- The groups of a list: `size` elements each, the last one perhaps fewer. A list has no more groups than elements,
which bounds the recursion. -/
def groupsFuel (size : Nat) : Nat → List Int32 → List (List Int32)
  | 0, _ => []
  | fuel + 1, ls => if ls.isEmpty then [] else ls.take size :: groupsFuel size fuel (ls.drop size)

/-- The groups of a list: `size` elements each, the last one perhaps fewer. -/
def groups (size : Nat) (ls : List Int32) : List (List Int32) := groupsFuel size ls.length ls

/-- Allocates a commander for each group and adds the clauses of the group. Answers the commanders. -/
def commandGroups : List (List Int32) → EngineM σ (List Int32)
  | [] => pure []
  | group :: rest => do
    Engine.addClauses (pairClauses group)
    let commander ← Engine.newVariable { eliminate := true }
    Engine.addClauses (commanderClauses commander group)
    let commanders ← commandGroups rest
    return commander :: commanders

/-- At most one literal, by pairs. -/
def atMostOneByPairs (ls : List Int32) : EngineM σ Bool := do
  Engine.addClauses (pairClauses ls)
  Engine.stillOkay

/-- At most one literal, with up to `fuel` levels of commanders. -/
def atMostOneFuel (size : Nat) : Nat → List Int32 → EngineM σ Bool
  | 0, ls => atMostOneByPairs ls
  | fuel + 1, ls =>
    if ls.length ≤ size then atMostOneByPairs ls
    else do
      let commanders ← commandGroups (groups size ls)
      atMostOneFuel size fuel commanders

/-- At most one of the literals is true. Groups have at least two literals, so every level has fewer commanders than
the one before. The answer is false if the formula is known to be unsatisfiable afterwards. -/
def atMostOne (ls : List Int32) (groupSize : Nat) : EngineM σ Bool :=
  atMostOneFuel (max 2 groupSize) ls.length ls

end ClauseLearning.Encoding
