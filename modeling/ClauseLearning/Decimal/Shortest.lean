import ClauseLearning.Decimal

/-!
# The shortest decimal of a single precision number

`Float32.shortest` writes a number with the fewest digits that identify it, and of these the ones nearest to its
value, always in positional notation.

* `Interval` : the numbers that round to a given one, by the midpoints to its neighbours;
* `Interval.gridPoint?` : the point of the grid of multiples of `10 ^ k` that lies in the interval and is nearest to
  the number;
* `positional` : a multiple of a power of ten, written without an exponent.
-/

namespace ClauseLearning

/-- The numbers that round to `centre * 2 ^ exponent`, between `low` and `high` in the same unit. The ends belong to
the interval if `closed` holds. -/
structure Interval where
  low : Nat
  centre : Nat
  high : Nat
  exponent : Int
  closed : Bool

namespace Interval

/-- The interval of a positive single precision number, in quarters of its last place. Below a power of two the
neighbour is only half as far, except for the least exponent. -/
def ofBinary (b : Binary) : Interval :=
  let below := if b.mantissa = hiddenBit ∧ BinaryFormat.single.least < b.exponent then 1 else 2
  { low := 4 * b.mantissa - below
    centre := 4 * b.mantissa
    high := 4 * b.mantissa + 2
    exponent := b.exponent - 2
    closed := b.mantissa % 2 == 0 }

/-- Two factors that bring multiples of `10 ^ k` and of the interval's unit to a common unit. -/
def scales (i : Interval) (k : Int) : Nat × Nat :=
  (Nat.pow 10 k.toNat * Nat.pow 2 (-i.exponent).toNat, Nat.pow 2 i.exponent.toNat * Nat.pow 10 (-k).toNat)

/-- Whether `d * 10 ^ k` lies in the interval. -/
def contains (i : Interval) (k : Int) (d : Nat) : Bool :=
  let (s, t) := i.scales k
  if i.closed then decide (i.low * t ≤ d * s ∧ d * s ≤ i.high * t)
  else decide (i.low * t < d * s ∧ d * s < i.high * t)

/-- The positive multiple of `10 ^ k` in the interval that is nearest to the centre, the upper one of two equally
near. If there is any, one of the centre's two neighbours is one. -/
def gridPoint? (i : Interval) (k : Int) : Option Nat :=
  let (s, t) := i.scales k
  let below := i.centre * t / s
  let upper := decide (s ≤ 2 * (i.centre * t - below * s))
  let hitBelow := decide (0 < below) && i.contains k below
  let hitAbove := i.contains k (below + 1)
  if hitAbove && (upper || !hitBelow) then some (below + 1)
  else if hitBelow then some below
  else none

/-- The coarsest grid, from `10 ^ k` on downwards over `count` powers, with a point in the interval, and that point. -/
def coarsest? (i : Interval) : Nat → Int → Option (Nat × Int)
  | 0, _ => none
  | count + 1, k =>
    match i.gridPoint? k with
    | some d => some (d, k)
    | none => coarsest? i count (k - 1)

end Interval

/-- `d * 10 ^ k` in positional notation. -/
def positional (d : Nat) (k : Int) : String :=
  let digits := toString d
  if 0 ≤ k then digits ++ "".pushn '0' k.toNat
  else
    let places := (-k).toNat
    let padded := ("".pushn '0' (places + 1 - digits.length) ++ digits).toList
    String.ofList (padded.take (padded.length - places)) ++ "." ++ String.ofList (padded.drop (padded.length - places))

/-- The finite positive number with the given bits below the sign. -/
def Binary.ofBits (bits : Nat) : Binary :=
  if bits < hiddenBit then ⟨bits, BinaryFormat.single.least⟩
  else ⟨bits % hiddenBit + hiddenBit, (bits / hiddenBit : Nat) - 150⟩

/-- A single precision number by the fewest digits that identify it. All finite ones but zero lie between `10 ^ -46` and
`10 ^ 39`. -/
def Float32.shortest (x : Float32) : String :=
  let bits := x.toBits.toNat
  let magnitude := bits % signBit
  if infinityBits < magnitude then "NaN"
  else
    let text :=
      if magnitude = infinityBits then "inf"
      else if magnitude = 0 then "0"
      else
        match (Interval.ofBinary (Binary.ofBits magnitude)).coarsest? 90 39 with
        | some (d, k) => positional d k
        | none => "0"
    if signBit ≤ bits then "-" ++ text else text

end ClauseLearning
