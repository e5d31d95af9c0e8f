/-!
# The ChaCha20 key stream

A `KeyStream` yields the 32-bit words of ChaCha20 for a key, a 64-bit block counter from 0 and a nonce of 0.

* `KeyStream.block key n` : the 16 words of block `n`, the state after 20 rounds added to the state before them;
* `KeyStream.next` : the next word;
* `KeyStream.ofSeed` : the stream whose key a 64-bit linear congruential generator draws from a seed.
-/

namespace ClauseLearning

/-- A position in a key stream: the key, the number of the next block and the words left of the current one. -/
structure KeyStream where
  key : List UInt32
  nextBlock : Nat := 0
  pending : List UInt32 := []

namespace KeyStream

/-- `x` rotated left by `n` bits, for `n` between 1 and 31. -/
def rotateLeft (x n : UInt32) : UInt32 := (x <<< n) ||| (x >>> (32 - n))

/-- Adds word `b` to word `a`, then mixes the sum into word `d` and rotates it. -/
def mix (s : Array UInt32) (a b d : Nat) (n : UInt32) : Array UInt32 :=
  let sum := s.getD a 0 + s.getD b 0
  (s.setIfInBounds a sum).setIfInBounds d (rotateLeft (s.getD d 0 ^^^ sum) n)

/-- The quarter round on four words of the state. -/
def quarterRound (s : Array UInt32) (a b c d : Nat) : Array UInt32 :=
  mix (mix (mix (mix s a b d 16) c d b 12) a b d 8) c d b 7

/-- A round on the columns of the state, then one on its diagonals. -/
def doubleRound (s : Array UInt32) : Array UInt32 :=
  let s := quarterRound s 0 4 8 12
  let s := quarterRound s 1 5 9 13
  let s := quarterRound s 2 6 10 14
  let s := quarterRound s 3 7 11 15
  let s := quarterRound s 0 5 10 15
  let s := quarterRound s 1 6 11 12
  let s := quarterRound s 2 7 8 13
  quarterRound s 3 4 9 14

/-- The words "expand 32-byte k" that begin the state. -/
def constants : List UInt32 := [0x61707865, 0x3320646e, 0x79622d32, 0x6b206574]

/-- The state from which a block is computed. -/
def initial (key : List UInt32) (block : Nat) : Array UInt32 :=
  (constants ++ key ++ [UInt32.ofNat block, UInt32.ofNat (block / UInt32.size), 0, 0]).toArray

/-- The words of a block. -/
def block (key : List UInt32) (n : Nat) : List UInt32 :=
  let s := initial key n
  (Array.zipWith (· + ·) (Nat.repeat doubleRound 10 s) s).toList

/-- The next word of the stream. -/
def next (k : KeyStream) : UInt32 × KeyStream :=
  match k.pending with
  | w :: ws => (w, { k with pending := ws })
  | [] =>
    match block k.key k.nextBlock with
    | w :: ws => (w, { k with nextBlock := k.nextBlock + 1, pending := ws })
    | [] => (0, k)

/-- One step of the generator that expands a seed: its new state and the key word it yields, 32 bits of the scrambled
state rotated right by the state's top five bits. -/
def seedStep (state : UInt64) : UInt64 × UInt32 :=
  let state := state * 6364136223846793005 + 11634580027462260723
  let word := (((state >>> 18) ^^^ state) >>> 27).toUInt32
  let turn := (state >>> 59).toUInt32
  (state, if turn = 0 then word else rotateLeft word (32 - turn))

/-- `count` key words from a seed. -/
def expandSeed : Nat → UInt64 → List UInt32
  | 0, _ => []
  | count + 1, state =>
    let (state, word) := seedStep state
    word :: expandSeed count state

/-- The stream of a seed. -/
def ofSeed (seed : UInt64) : KeyStream := { key := expandSeed 8 seed }

end KeyStream

end ClauseLearning
