import ClauseLearning.Literal

/-!
# Stored clauses

* `Tier` : where a clause belongs. Irredundant clauses carry the formula; learned ones are graded by their glue, the
  number of decision levels they join (`Tier.ofGlue`);
* `Clause` : a stored clause with its bookkeeping. It has at least two literals, the first two being the watched ones;
* `Clause.withLits?`, `Clause.swapWatched`, `Clause.replaceSecond`, `Clause.watchBest` : the ways in which its
  literals change. All but the first permute them.
-/

namespace ClauseLearning

/-- The place of a clause in the database. -/
abbrev ClauseRef := Nat

/-- The parts of the clause database. -/
inductive Tier
  /-- Clauses of the formula. -/
  | irredundant
  /-- Learned clauses kept for good. -/
  | core
  /-- Learned clauses kept while they take part in conflicts. -/
  | mid
  /-- Learned clauses of which the less active half is deleted from time to time. -/
  | loc
deriving DecidableEq, Inhabited

/-- The tier of a learned clause of a given glue. -/
def Tier.ofGlue (glue : Nat) : Tier := if glue ≤ 2 then .core else if glue ≤ 6 then .mid else .loc

/-- A value for each tier. -/
structure PerTier (α : Type) where
  irredundant : α
  core : α
  mid : α
  loc : α

namespace PerTier

variable {α β : Type}

def get (p : PerTier α) : Tier → α
  | .irredundant => p.irredundant
  | .core => p.core
  | .mid => p.mid
  | .loc => p.loc

def modify (p : PerTier α) (t : Tier) (f : α → α) : PerTier α :=
  match t with
  | .irredundant => { p with irredundant := f p.irredundant }
  | .core => { p with core := f p.core }
  | .mid => { p with mid := f p.mid }
  | .loc => { p with loc := f p.loc }

def map (p : PerTier α) (f : α → β) : PerTier β := ⟨f p.irredundant, f p.core, f p.mid, f p.loc⟩

/-- The same value for each tier. -/
def const (a : α) : PerTier α := ⟨a, a, a, a⟩

end PerTier

/-- The greatest glue that fits into the 26 bits of a header. -/
def Clause.maxGlue : Nat := 0x3FFFFFF

/-- What a header holds of a glue, which saturates. -/
def Clause.storedGlue (glue : Nat) : Nat := min glue maxGlue

/-- A clause in the database. -/
structure Clause where
  first : Lit
  second : Lit
  others : List Lit := []
  tier : Tier := .irredundant
  /-- The least glue seen of a learned clause, at most `Clause.maxGlue`. -/
  glue : Nat := 0
  activity : Float32 := 0
  /-- Deleted, but not yet removed from the lists that mention it. -/
  deleted : Bool := false
  /-- Set while a list that may mention the clause twice is scanned. -/
  marked : Bool := false
  /-- Took part in a conflict since the last reduction of its tier. -/
  active : Bool := false

instance : Inhabited Clause := ⟨{ first := ⟨0⟩, second := ⟨0⟩, deleted := true }⟩

namespace Clause

/-- All literals, the watched ones first. -/
def lits (c : Clause) : List Lit := c.first :: c.second :: c.others

/-- The number of literals. -/
def size (c : Clause) : Nat := c.others.length + 2

/-- Whether the clause was learned. -/
def learned (c : Clause) : Bool := c.tier != .irredundant

/-- The clause with other literals, unless there are fewer than two. -/
def withLits? (c : Clause) : List Lit → Option Clause
  | a :: b :: rest => some { c with first := a, second := b, others := rest }
  | _ => none

/-- Exchanges the watched literals. -/
def swapWatched (c : Clause) : Clause := { c with first := c.second, second := c.first }

end Clause

/-- Replaces the first literal that `good` holds of by `l`, and answers it. -/
def exchangeFirst? (good : Lit → Bool) (l : Lit) : List Lit → Option (Lit × List Lit)
  | [] => none
  | x :: xs =>
    if good x then some (x, l :: xs)
    else
      match exchangeFirst? good l xs with
      | some (found, rest) => some (found, x :: rest)
      | none => none

/-- Exchanges `l` with the first literal of least rank in `xs`, if that rank is below its own. -/
def exchangeLeast (rank : Lit → Nat) (l : Lit) (xs : List Lit) : Lit × List Lit :=
  match firstMin? rank xs with
  | none => (l, xs)
  | some best =>
    if rank best < rank l then (exchangeFirst? (rank · == rank best) l xs).getD (l, xs) else (l, xs)

namespace Clause

/-- Exchanges the second literal with the first of the others that `good` holds of. -/
def replaceSecond? (c : Clause) (good : Lit → Bool) : Option Clause :=
  (exchangeFirst? good c.second c.others).map fun (found, rest) => { c with second := found, others := rest }

/-- Moves the two literals of least rank to the front. Literals of equal rank keep their order, so a clause that is
watched well already stays as it is. -/
def watchBest (c : Clause) (rank : Lit → Nat) : Clause :=
  match exchangeLeast rank c.first (c.second :: c.others) with
  | (first, x :: xs) =>
    let (second, others) := exchangeLeast rank x xs
    { c with first := first, second := second, others := others }
  | (_, []) => c

end Clause

end ClauseLearning
