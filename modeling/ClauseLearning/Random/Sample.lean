import ClauseLearning.Random.KeyStream

/-!
# Uniform draws and samples without repetition

* `KeyStream.below n` : a number below `n`, by widening multiplication with rejection, so that each is equally likely;
* `KeyStream.coin` : a truth value;
* `KeyStream.sample n k` : `k` different numbers below `n`, in an order that is random as well. Few of many are
  drawn by Floyd's method (`floyd`), many of few by the first steps of a shuffle (`partialShuffle`).
-/

namespace ClauseLearning.KeyStream

/-- The number of words after which a key stream repeats: 16 for each value of the block counter. -/
def period : Nat := 16 * UInt64.size

/-- Draws words until the low half of the product with `range` is at most `zone`, and answers the high half. A draw
that has not ended within `fuel` words answers 0. -/
def draw (range zone : UInt32) : Nat → KeyStream → Nat × KeyStream
  | 0, k => (0, k)
  | fuel + 1, k =>
    let (w, k) := k.next
    let product := w.toNat * range.toNat
    if product % UInt32.size ≤ zone.toNat then (product / UInt32.size, k) else draw range zone fuel k

/-- The number of zero bits in front of the highest one of a 32-bit word. -/
def leadingZeros (n : Nat) : Nat := if n = 0 then 32 else 31 - n.log2

/-- A number below `n`. The stream repeats after `period` words, so a draw that has not ended by then never would. -/
def below (k : KeyStream) (n : Nat) : Nat × KeyStream :=
  let zone := (n <<< leadingZeros n) - 1
  draw (UInt32.ofNat n) (UInt32.ofNat zone) period k

/-- A truth value, the top bit of a word. -/
def coin (k : KeyStream) : Bool × KeyStream :=
  let (w, k) := k.next
  (decide (0x80000000 ≤ w), k)

/-- `count` truth values. -/
def coins : Nat → KeyStream → List Bool × KeyStream
  | 0, k => ([], k)
  | count + 1, k =>
    let (c, k) := k.coin
    let (cs, k) := coins count k
    (c :: cs, k)

/-- The first `count` steps, from position `i` on, of a shuffle of `a`: each position in turn is exchanged with a
random one that is not before it. -/
def partialShuffle : Nat → Nat → Array Nat → KeyStream → Array Nat × KeyStream
  | 0, _, a, k => (a, k)
  | count + 1, i, a, k =>
    let (offset, k) := k.below (a.size - i)
    partialShuffle count (i + 1) (a.swapIfInBounds i (i + offset)) k

/-- Puts `new` in front of the first `old`. -/
def insertBefore (old new : Nat) : List Nat → List Nat
  | [] => [new]
  | x :: xs => if x = old then new :: x :: xs else x :: insertBefore old new xs

/-- Floyd's method, for the bounds `j`, `j + 1`, … in turn: draw `t` up to the bound and take it if it is new, the
bound itself otherwise. With `keepsOrder` the bound goes in front of `t`, which leaves all orders equally likely;
without, it goes to the end. -/
def floyd (keepsOrder : Bool) : Nat → Nat → List Nat → KeyStream → List Nat × KeyStream
  | 0, _, taken, k => (taken, k)
  | count + 1, j, taken, k =>
    let (t, k) := k.below (j + 1)
    let taken :=
      if taken.contains t then if keepsOrder then insertBefore t j taken else taken ++ [j]
      else taken ++ [t]
    floyd keepsOrder count (j + 1) taken k

/-- A shuffle from the back: each position from `i` down to 1 is exchanged with a random one that is not after it. -/
def shuffleDown : Nat → Array Nat → KeyStream → Array Nat × KeyStream
  | 0, a, k => (a, k)
  | i + 1, a, k =>
    let (other, k) := k.below (i + 2)
    shuffleDown i (a.swapIfInBounds (i + 1) other) k

/-- `count` different numbers below `n`, for `count ≤ n`. -/
def sample (k : KeyStream) (n count : Nat) : List Nat × KeyStream :=
  if 11 < count ∧ 5 * n < (50 + 8 * count) * count then
    let (a, k) := partialShuffle count 0 (Array.range n) k
    (a.toList.take count, k)
  else if count < 50 then floyd true count (n - count) [] k
  else
    let (taken, k) := floyd false count (n - count) [] k
    let (a, k) := shuffleDown (count - 1) taken.toArray k
    (a.toList, k)

end ClauseLearning.KeyStream
