import ClauseLearning.Clause
import ClauseLearning.StableSort

/-!
# Clause storage

The words of which a `Database` keeps account. They are one array of 32 bit words, in which a clause begins at its
reference with the three words of its `Header`, and the codes of its literals follow.

* `Header.has`, `Header.put`, `Header.tier`, `Header.glue` : the fields of the first word of a header;
* `Storage.add?` : stores a clause behind the others;
* `Storage.setHeader`, `Storage.setCodes` : change a clause in place;
* `Storage.compact` : moves clauses together.
-/

namespace ClauseLearning

/-! ## Headers -/

/-- What is stored of a clause before its literals. -/
structure Header where
  /-- The tier in the two lowest bits, the flags, and the glue from the sixth bit on. -/
  flags : UInt32 := 0
  /-- The bits of the activity. -/
  activity : UInt32 := 0
  /-- The number of literals. -/
  length : UInt32 := 0
deriving DecidableEq, Repr

/-- The flags of a clause. -/
inductive Flag
  | deleted
  | marked
  | active
deriving DecidableEq, Repr

/-- Where a flag is in the first word of a header. -/
def Flag.bit : Flag → UInt32
  | deleted => 2
  | marked => 3
  | active => 4

/-- The number that stands for a tier. -/
def Tier.index : Tier → UInt32
  | irredundant => 0
  | core => 1
  | mid => 2
  | loc => 3

def Tier.ofIndex (i : UInt32) : Tier :=
  if i = 0 then .irredundant else if i = 1 then .core else if i = 2 then .mid else .loc

namespace Header

def has (h : Header) (f : Flag) : Bool := (h.flags >>> f.bit) &&& 1 != 0

def put (h : Header) (f : Flag) (b : Bool) : Header :=
  { h with flags := (h.flags &&& ~~~(1 <<< f.bit)) ||| ((if b then 1 else 0) <<< f.bit) }

def tier (h : Header) : Tier := .ofIndex (h.flags &&& 3)

def setTier (h : Header) (t : Tier) : Header := { h with flags := (h.flags &&& ~~~3) ||| t.index }

def glue (h : Header) : Nat := (h.flags >>> 6).toNat

def setGlue (h : Header) (g : Nat) : Header :=
  { h with flags := (h.flags &&& ~~~((~~~0 : UInt32) <<< 6)) ||| (UInt32.ofNat (Clause.storedGlue g) <<< 6) }

def words (h : Header) : List UInt32 := [h.flags, h.activity, h.length]

end Header

/-- The header that a clause is stored with. -/
def Clause.header (c : Clause) : Header :=
  let h := ((({ } : Header).setTier c.tier).put .deleted c.deleted).put .marked c.marked |>.put .active c.active
  { h.setGlue c.glue with activity := c.activity.toBits, length := UInt32.ofNat c.size }

/-- The literals as they are stored. -/
def Clause.codes (c : Clause) : List UInt32 := c.lits.map fun l => UInt32.ofNat l.code

/-! ## Storage -/

/-- All words in use, those of garbage included. -/
structure Storage where
  words : Array UInt32 := #[]
deriving DecidableEq, Repr

namespace Storage

variable (s : Storage)

def word (i : Nat) : UInt32 := s.words.getD i 0

/-- Some words in a row. -/
def slice (i n : Nat) : List UInt32 := (s.words.extract i (i + n)).toList

/-- Writes over words that are in use. -/
def write (i : Nat) (ws : List UInt32) : Storage :=
  { words := s.words.extract 0 i ++ ws.toArray ++ s.words.extract (i + ws.length) s.words.size }

/-- The header of the clause at a reference. -/
def header (r : UInt32) : Header :=
  { flags := s.word r.toNat, activity := s.word (r.toNat + 1), length := s.word (r.toNat + 2) }

/-- The number of words of a clause. -/
def extent (r : UInt32) : Nat := 3 + (s.header r).length.toNat

/-- The literals of a clause. -/
def codes (r : UInt32) : List UInt32 := s.slice (r.toNat + 3) (s.header r).length.toNat

def setHeader (r : UInt32) (h : Header) : Storage := s.write r.toNat h.words

def setCodes (r : UInt32) (cs : List UInt32) : Storage := s.write (r.toNat + 3) cs

/-- Stores a clause of at least two literals, as long as references reach that far. -/
def add? (h : Header) (cs : List UInt32) : Option (UInt32 × Storage) :=
  if 2 ≤ cs.length ∧ s.words.size < UInt32.size then
    let h := { h with length := UInt32.ofNat cs.length }
    some (UInt32.ofNat s.words.size, { words := s.words ++ h.words.toArray ++ cs.toArray })
  else none

end Storage

/-! ## Compaction -/

/-- Compaction under way: the references in storage order, of which the first `kept` are new ones, and where the last
clause that was moved ends. -/
structure Compaction where
  storage : Storage
  refs : Array UInt32
  kept : Nat := 0
  stop : Nat := 0

namespace Compaction

/-- Moves the clause of a reference, unless it is deleted. -/
def step (c : Compaction) (i : Nat) : Compaction :=
  let r := c.refs.getD i 0
  if (c.storage.header r).has .deleted then c
  else
    let n := c.storage.extent r
    { storage := c.storage.write c.stop (c.storage.slice r.toNat n)
      refs := c.refs.setIfInBounds c.kept (UInt32.ofNat c.stop)
      kept := c.kept + 1
      stop := c.stop + n }

end Compaction

/-- Moves the listed clauses that are not deleted to the start, and drops all others. Answers the number of words
reclaimed and the new references, in storage order. -/
def Storage.compact (s : Storage) (refs : Array UInt32) : Nat × Array UInt32 × Storage :=
  let sorted := (sortBy UInt32.toNat refs.toList).toArray
  let c := (List.range sorted.size).foldl Compaction.step { storage := s, refs := sorted }
  (s.words.size - c.stop, c.refs.take c.kept, { words := c.storage.words.take c.stop })

end ClauseLearning
