/-!
# The reluctant doubling sequence

`Luby.next` yields the sequence 1, 1, 2, 1, 1, 2, 4, 1, 1, 2, 1, 1, 2, 4, 8, … one term at a time: the powers of two
up to the lowest set bit of 1, of 2, of 3 and so on.
-/

namespace ClauseLearning

/-- A position in the sequence: `power` is the next term, a power of two that divides `count`. -/
structure Luby where
  count : Nat := 1
  power : Nat := 1
deriving DecidableEq

namespace Luby

/-- The next term, and the position after it. The powers for `count` end with its lowest set bit. -/
def next (s : Luby) : Nat × Luby :=
  (s.power,
    if s.count / s.power % 2 = 1 then { count := s.count + 1, power := 1 }
    else { s with power := 2 * s.power })

/-- The first `n` terms from a position on. -/
def terms : Nat → Luby → List Nat
  | 0, _ => []
  | n + 1, s => s.next.1 :: terms n s.next.2

end Luby

end ClauseLearning
