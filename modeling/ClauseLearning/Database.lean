import ClauseLearning.Clause
import ClauseLearning.Event

/-!
# The clause database

A `Database` holds the stored clauses, in the order they were added, and lists of references to them: all of them
(`listed`) and those of each tier (`byTier`). Deleting a clause only marks it as deleted; the lists may mention
deleted clauses, and the tier lists also clauses that moved on and clauses twice. The counts are always up to date.

Storage is measured in words, `Clause.words` for each clause, which begin at its offset. The words of deleted clauses
and of removed literals are `garbage` until `Database.compact` reclaims them.

* `Database.add`, `Database.setTier`, `Database.delete` : single clauses;
* `Database.sweep` : keeps, shortens or deletes each clause;
* `Database.compact`, `Database.collect?` : moves the clauses together, under new references.
-/

namespace ClauseLearning

/-- The words that a clause takes: three for its bookkeeping and one for each literal. -/
def Clause.words (c : Clause) : Nat := 3 + c.size

/-- The stored clauses, see above. -/
structure Database where
  slots : Array Clause := #[]
  /-- Where the words of each clause begin. -/
  offsets : Array Nat := #[]
  /-- The words in use, those of garbage included. -/
  words : Nat := 0
  listed : Array ClauseRef := #[]
  byTier : PerTier (Array ClauseRef) := .const #[]
  counts : PerTier Nat := .const 0
  garbage : Nat := 0

namespace Database

/-- The clause of a reference. A reference that is not in use stands for a deleted clause. -/
def get (d : Database) (r : ClauseRef) : Clause := d.slots.getD r default

/-- Where the words of a clause begin. -/
def offset (d : Database) (r : ClauseRef) : Nat := d.offsets.getD r 0

/-- Changes the clause of a reference. -/
def modify (d : Database) (r : ClauseRef) (f : Clause → Clause) : Database := { d with slots := d.slots.modify r f }

/-- Stores a clause. -/
def add (d : Database) (c : Clause) : ClauseRef × Database :=
  (d.slots.size,
    { d with
      slots := d.slots.push c
      offsets := d.offsets.push d.words
      words := d.words + c.words
      listed := d.listed.push d.slots.size
      byTier := d.byTier.modify c.tier (·.push d.slots.size)
      counts := d.counts.modify c.tier (· + 1) })

/-- Moves a clause to another tier. -/
def setTier (d : Database) (r : ClauseRef) (t : Tier) : Database :=
  let old := (d.get r).tier
  if old = t then d
  else
    { d with
      slots := d.slots.modify r ({ · with tier := t })
      byTier := d.byTier.modify t (·.push r)
      counts := (d.counts.modify old (· - 1)).modify t (· + 1) }

/-- Deletes a clause that is not deleted yet. -/
def delete (d : Database) (r : ClauseRef) : Database :=
  let c := d.get r
  { d with
    slots := d.slots.modify r ({ · with deleted := true })
    counts := d.counts.modify c.tier (· - 1)
    garbage := d.garbage + c.words }

/-- Whether a reference stands for a clause that is not deleted. -/
def isLive (d : Database) (r : ClauseRef) : Bool := !(d.get r).deleted

/-- The references to all clauses that are not deleted, in the order of the list. -/
def live (d : Database) : List ClauseRef := d.listed.toList.filter d.isLive

/-! ## Sweeping -/

/-- Keeps or deletes the clauses of a list in turn, and collects the references that are kept. -/
def sweepList (keep? : Clause → Option Clause) :
    List ClauseRef → Array ClauseRef → Database → Array ClauseRef × Database
  | [], kept, d => (kept, d)
  | r :: rs, kept, d =>
    let c := d.get r
    if c.deleted then sweepList keep? rs kept d
    else
      match keep? c with
      | some c' =>
        let d := d.modify r fun _ => c'
        sweepList keep? rs (kept.push r) { d with garbage := d.garbage + (c.size - c'.size) }
      | none => sweepList keep? rs kept (d.delete r)

/-- Replaces each clause by the one that `keep?` answers for it, or deletes it. The list of all clauses mentions no
deleted clause afterwards, and if one was deleted, those of the tiers mention none either. -/
def sweep (d : Database) (keep? : Clause → Option Clause) : Database :=
  let (kept, e) := sweepList keep? d.listed.toList #[] d
  let byTier := if kept.size < d.live.length then e.byTier.map (·.filter e.isLive) else e.byTier
  { e with listed := kept, byTier := byTier }

/-! ## Compaction -/

/-- The clauses of the given references that are not deleted, in storage order. -/
def gather (d : Database) (refs : List ClauseRef) : List Clause :=
  (sortBy d.offset refs).filterMap fun r => (d.slots[r]?).filter (!·.deleted)

/-- The number of words of a list of clauses. -/
def wordsOf (cs : List Clause) : Nat := cs.foldr (fun c n => c.words + n) 0

/-- Where clauses begin that are stored one after the other from `start` on. -/
def offsetsFrom (start : Nat) : List Clause → List Nat
  | [] => []
  | c :: cs => start :: offsetsFrom (start + c.words) cs

/-- Moves the listed clauses that are not deleted to the start of the storage, and answers the number of words
reclaimed. -/
def compact (d : Database) : Nat × Database :=
  let kept := d.gather d.listed.toList
  let slots := kept.toArray
  let refs := Array.range slots.size
  let ofTier := fun t => refs.filter fun r => (slots.getD r default).tier == t
  (d.words - wordsOf kept,
    { d with
      slots := slots
      offsets := (offsetsFrom 0 kept).toArray
      words := wordsOf kept
      listed := refs
      byTier := ⟨ofTier .irredundant, ofTier .core, ofTier .mid, ofTier .loc⟩
      garbage := 0 })

/-- Compacts once more than half of the words are garbage, and answers the event. -/
def collect? (d : Database) : Option (Event × Database) :=
  if d.garbage * 2 ≤ d.words then none
  else
    let (freed, e) := d.compact
    some (.garbageCollected freed d.words, e)

end Database

end ClauseLearning
